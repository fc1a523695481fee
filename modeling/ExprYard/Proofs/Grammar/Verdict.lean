import ExprYard.Proofs.Grammar.Cutting
import ExprYard.Proofs.Grammar.Language
import ExprYard.Proofs.Parser.Feeding
import ExprYard.Proofs.Parser.Requests

/-!
# The verdict on a source

A source of which the lexer has nothing to report is accepted, or it lacks an operand, or it has a
parenthesis that is never closed; and which of these it is can be read off its tokens, without
building a tree. An operand is lacking where a parenthesis closes right behind an operator or a
comma, and where the tokens end in one or in the assignment sign.

The tokens of such a source are a draft that has come to its end (`Draft.ending`), or a draft and a
parenthesis that comes amiss. In the first case the last token tells whether the innermost row still
waits for an operand, and the open frames are the parentheses that are not closed. In the second the
token before the parenthesis tells; that it is the only way for a parenthesis to come behind an
operator is `Turns.not_closesEarly`.
-/

namespace ExprYard

open ExprYard.Parser

/-! ## Reading the verdict off tokens -/

/-- Whether tokens of a kind join the operand behind them to something: operators and commas. -/
def Kind.isJoint : Kind → Bool
  | operator _ | keyword .comma => true
  | _ => false

/-- A parenthesis closes right behind an operator or a comma. -/
def ClosesEarly (ts : List Token) : Prop :=
  ∃ t closing, [t, closing] <:+: ts ∧ t.kind.isJoint = true ∧ closing.kind = .closeParen

/-- The tokens end in an operator, a comma or the assignment sign. -/
def EndsEarly (ts : List Token) : Prop :=
  ∃ t ∈ ts.getLast?, t.kind.isJoint = true ∨ t.kind = .keyword .assign

/-- An operand is not there where it is due. -/
def LacksOperand (ts : List Token) : Prop :=
  ClosesEarly ts ∨ EndsEarly ts

/-- The parentheses that are open behind a token, the latest first, when `os` are open before it. A
closing parenthesis closes the latest. -/
def openBehind (os : List Token) (t : Token) : List Token :=
  if t.kind = .openParen then t :: os else if t.kind = .closeParen then os.tail else os

/-- The parentheses among tokens that are never closed, the last first. -/
def unclosed (ts : List Token) : List Token :=
  ts.foldl openBehind []

section

variable {ts us : List Token} {t : Token}

theorem infix_pair_iff {a b : Token} : [a, b] <:+: ts ↔ (a, b) ∈ ts.zip ts.tail := by
  induction ts with
  | nil => simp
  | cons t ts ih =>
    rw [List.infix_cons_iff, ih]
    cases ts with
    | nil => simp
    | cons u us => simp [List.cons_prefix_cons]

instance (ts : List Token) : Decidable (ClosesEarly ts) :=
  decidable_of_iff (∃ x ∈ ts.zip ts.tail, x.1.kind.isJoint = true ∧ x.2.kind = .closeParen) <| by
    simp [ClosesEarly, infix_pair_iff]

instance (ts : List Token) : Decidable (EndsEarly ts) :=
  inferInstanceAs (Decidable (∃ t ∈ ts.getLast?, t.kind.isJoint = true ∨ t.kind = .keyword .assign))

instance (ts : List Token) : Decidable (LacksOperand ts) :=
  inferInstanceAs (Decidable (ClosesEarly ts ∨ EndsEarly ts))

end

/-! ## Parentheses that are not closed -/

theorem openBehind_other {t : Token} {os : List Token} (hopen : t.kind ≠ .openParen)
    (hclose : t.kind ≠ .closeParen) : openBehind os t = os := by
  unfold openBehind
  rw [if_neg hopen, if_neg hclose]

theorem openBehind_open {t : Token} {os : List Token} (h : t.kind = .openParen) :
    openBehind os t = t :: os := by
  unfold openBehind
  rw [if_pos h]

theorem openBehind_close {t : Token} {os : List Token} (h : t.kind = .closeParen) :
    openBehind os t = os.tail := by
  unfold openBehind
  rw [h]
  rfl

theorem Matched.append {depth : Nat} {ts us : List Token} (h : Matched depth ts)
    (g : Matched 0 us) : Matched depth (ts ++ us) := by
  induction ts generalizing depth with
  | nil =>
    rw [show depth = 0 from h]
    exact g
  | cons t ts ih => exact ⟨h.1, ih h.2⟩

/-- Matched tokens close the parentheses that are open at the top and leave the others as they
are. -/
theorem foldl_openBehind_of_matched {depth : Nat} {ts : List Token} (h : Matched depth ts)
    (xs os : List Token) (hxs : xs.length = depth) : ts.foldl openBehind (xs ++ os) = os := by
  induction ts generalizing depth xs with
  | nil =>
    rw [show depth = 0 from h] at hxs
    rw [List.length_eq_zero_iff.mp hxs]
    rfl
  | cons t ts ih =>
    obtain ⟨hclose, hrest⟩ := h
    rw [List.foldl_cons]
    by_cases hopen : t.kind = .openParen
    · rw [openBehind_open hopen]
      rw [Token.level_open hopen] at hrest
      exact ih hrest (t :: xs) (congrArg Nat.succ hxs)
    · by_cases hk : t.kind = .closeParen
      · cases xs with
        | nil => exact (hclose hk hxs.symm).elim
        | cons x xs =>
          subst hxs
          rw [List.length_cons, Token.level_close hk] at hrest
          rw [openBehind_close hk]
          exact ih hrest xs rfl
      · rw [openBehind_other hopen hk]
        rw [Token.level_other hopen hk] at hrest
        exact ih hrest xs hxs

theorem Matched.foldl_openBehind {ts : List Token} (h : Matched 0 ts) (os : List Token) :
    ts.foldl openBehind os = os :=
  foldl_openBehind_of_matched h [] os rfl

theorem Target.whole (target : Target) : Whole 0 target.tokens := by
  obtain ⟨name, type⟩ := target
  have hname : Whole 0 [name.1] := name.whole (by decide) (by decide) fun _ => by decide
  cases type with
  | none => exact hname
  | some typed =>
    exact hname.cons ((typed.1.whole (by decide) (by decide) fun _ => by decide).cons
      (typed.2.whole 0))

theorem LetHead.whole (head : LetHead) : Whole 0 head.tokens :=
  (head.word.whole (by decide) (by decide) fun _ => by decide).cons
    (head.target.whole.append (head.assign.whole (by decide) (by decide) fun _ => by decide))

theorem whole_headTokens (head : Option LetHead) : Whole 0 (headTokens head) := by
  cases head with
  | none => exact .nil 0
  | some head => exact head.whole

theorem Stmt.whole (s : Stmt) : Whole 0 s.tokens := by
  obtain ⟨head, e, rfl⟩ := s.exists_of
  rw [Stmt.tokens_of]
  exact (whole_headTokens head).append (e.whole 0)

theorem Closed.whole (closed : Closed) : Whole 0 closed.tokens := by
  induction closed with
  | nil => exact .nil 0
  | cons x closed ih =>
    exact (x.1.whole.append (x.2.whole (by decide) (by decide) fun _ => by decide)).append ih

theorem matched_single {t : Token} (hopen : t.kind ≠ .openParen) (hclose : t.kind ≠ .closeParen) :
    Matched 0 [t] := by
  refine ⟨fun h => (hclose h).elim, ?_⟩
  rw [Token.level_other hopen hclose]
  rfl

theorem Gap.matched (g : Gap) : Matched 0 g.tokens := by
  induction g with
  | start => rfl
  | comma l c => exact l.listed.matched.append (matched_single (c.ne (by decide)) (c.ne (by decide)))
  | operator l op =>
    refine l.listed.matched.append (matched_single ?_ ?_) <;>
    · rw [op.kind]
      exact nofun
  | bang g b ih => exact ih.append (matched_single (b.ne (by decide)) (b.ne (by decide)))

theorem Frame.foldl_openBehind (f : Frame) (os : List Token) :
    f.tokens.foldl openBehind os = f.opening.1 :: os := by
  unfold Frame.tokens
  rw [List.foldl_append, f.gap.matched.foldl_openBehind]
  unfold Frame.bracket
  cases f.call with
  | none => exact openBehind_open f.opening.2
  | some name =>
    show openBehind (openBehind os name.1) f.opening.1 = _
    rw [openBehind_other (name.ne (by decide)) (name.ne (by decide)), openBehind_open f.opening.2]

theorem foldl_openBehind_nest (fs : List Frame) :
    (nestTokens Frame.tokens fs).foldl openBehind [] = fs.map fun f => f.opening.1 := by
  induction fs with
  | nil => rfl
  | cons f fs ih =>
    unfold nestTokens
    rw [List.foldl_append, ih, f.foldl_openBehind]
    rfl

theorem Place.matched (place : Place) : Matched 0 place.tokens := by
  cases place with
  | gap g => exact g.matched
  | list l => exact l.listed.matched

/-- The frames of a draft are the parentheses that are not closed. -/
theorem Draft.unclosed_tokens (closed : Closed) (head : Option LetHead) (fs : List Frame)
    (place : Place) : unclosed (Draft.mk closed (.expression head fs place)).tokens
      = fs.map fun f => f.opening.1 := by
  unfold unclosed Draft.tokens Current.tokens
  rw [List.foldl_append, closed.whole.toMatched.foldl_openBehind, List.foldl_append,
    (whole_headTokens head).toMatched.foldl_openBehind, List.foldl_append, foldl_openBehind_nest,
    place.matched.foldl_openBehind]

/-! ## Last tokens -/

/-- Tokens that end as an operand does: the last one joins nothing to what is behind it. -/
def Sated (ts : List Token) : Prop :=
  ∃ pre t, ts = pre ++ [t] ∧ t.kind.isJoint = false ∧ t.kind ≠ .keyword .assign

namespace Sated

variable {t : Token} {ts us : List Token}

theorem single (hjoint : t.kind.isJoint = false) (hassign : t.kind ≠ .keyword .assign) :
    Sated [t] :=
  ⟨[], t, rfl, hjoint, hassign⟩

theorem prepend (h : Sated us) (ts : List Token) : Sated (ts ++ us) := by
  obtain ⟨pre, t, rfl, ht⟩ := h
  exact ⟨ts ++ pre, t, (List.append_assoc ..).symm, ht⟩

theorem not_endsEarly (h : Sated ts) : ¬ EndsEarly ts := by
  obtain ⟨pre, t, rfl, hjoint, hassign⟩ := h
  rintro ⟨u, hu, hearly⟩
  rw [List.getLast?_concat] at hu
  cases hu
  rcases hearly with hearly | hearly
  · rw [hjoint] at hearly
    cases hearly
  · exact hassign hearly

/-- A token of a given kind at the end. -/
theorem last {kind : Kind} (t : Token.Is kind) (ts : List Token) (hjoint : kind.isJoint = false)
    (hassign : kind ≠ .keyword .assign) : Sated (ts ++ [t.1]) :=
  (single (by rw [t.2]; exact hjoint) (t.ne hassign)).prepend ts

end Sated

theorem Unary.sated (u : Unary) : Sated u.tokens := by
  cases u with
  | bang b u => exact u.sated.prepend [b.1]
  | value t =>
    refine .single ?_ (t.2.ne (by decide))
    have hvalue := t.2
    generalize t.1.kind = kind at hvalue ⊢
    rcases hvalue with hliteral | rfl
    · cases kind <;> first | rfl | cases hliteral
    · rfl
  | group opening c closing => exact (Sated.last closing c.tokens rfl nofun).prepend [opening.1]
  | call f opening c closing =>
    exact (Sated.last closing c.tokens rfl nofun).prepend [f.1, opening.1]

theorem Expr.sated (e : Expr) : Sated e.tokens := by
  cases e with
  | unary u => exact u.sated
  | binary e op u => exact (u.sated.prepend [op.token]).prepend e.tokens

theorem Exprs.sated (l : Exprs) : Sated l.tokens := by
  cases l with
  | one e => exact e.sated
  | more l comma e => exact (e.sated.prepend [comma.1]).prepend l.tokens

theorem Ty.sated (t : Ty) : Sated t.tokens := by
  cases t with
  | scalar t =>
    obtain ⟨t, word, hk, hw⟩ := t
    exact .single (by rw [hk]; rfl) (by rw [hk]; exact nofun)
  | tuple word opening l closing =>
    exact (Sated.last closing l.tokens rfl nofun).prepend [word.1, opening.1]

theorem Tys.sated (l : Tys) : Sated l.tokens := by
  cases l with
  | one t => exact t.sated
  | more l comma t => exact (t.sated.prepend [comma.1]).prepend l.tokens

theorem Closed.not_endsEarly (closed : Closed) : ¬ EndsEarly closed.tokens := by
  rcases List.eq_nil_or_concat closed with rfl | ⟨closed, x, rfl⟩
  · rintro ⟨t, ht, -⟩
    cases ht
  · have hlast : Sated (x.1.tokens ++ [x.2.1]) := Sated.last x.2 x.1.tokens rfl nofun
    have htokens : Closed.tokens (closed.concat x)
        = Closed.tokens closed ++ (x.1.tokens ++ [x.2.1]) := by
      simp [Closed.tokens]
    rw [htokens]
    exact (hlast.prepend _).not_endsEarly

/-- Where an operand is awaited behind something, that is an operator or a comma. -/
theorem Gap.tokens_of_ne_start {g : Gap} (h : g ≠ .start) :
    ∃ pre t, g.tokens = pre ++ [t] ∧ t.kind.isJoint = true := by
  cases g with
  | start => exact (h rfl).elim
  | comma l c => exact ⟨l.tokens, c.1, rfl, by rw [c.2]; rfl⟩
  | operator l op => exact ⟨l.tokens, op.token, rfl, by rw [op.kind]; rfl⟩
  | bang g b => exact ⟨g.tokens, b.1, rfl, by rw [b.2]; rfl⟩

namespace Draft

variable (closed : Closed) (head : Option LetHead) (fs : List Frame)

theorem sated_list (l : Exprs) : Sated (Draft.mk closed (.expression head fs (.list l))).tokens :=
  ((l.sated.prepend _).prepend _).prepend _

theorem sated_start (f : Frame) :
    Sated (Draft.mk closed (.expression head (f :: fs) (.gap .start))).tokens := by
  have hbracket : Sated f.bracket := by
    unfold Frame.bracket
    cases f.call with
    | none => exact Sated.last f.opening [] rfl nofun
    | some name => exact Sated.last f.opening [name.1] rfl nofun
  have hframe : Sated (nestTokens Frame.tokens (f :: fs) ++ []) := by
    rw [List.append_nil]
    exact (hbracket.prepend _).prepend _
  exact (hframe.prepend _).prepend _

theorem sated_typeList (w : Token.Is (.keyword .letWord)) (name : Token.Is .identifier)
    (colon : Token.Is (.keyword .typeSeparator)) (tfs : List TypeFrame) (l : Tys) :
    Sated (Draft.mk closed (.typing w name colon tfs (.list l))).tokens := by
  have hnest := l.sated.prepend (nestTokens TypeFrame.tokens tfs)
  exact (hnest.prepend [w.1, name.1, colon.1]).prepend _

theorem tokens_of_ne_start {g : Gap} (h : g ≠ .start) :
    ∃ pre t, (Draft.mk closed (.expression head fs (.gap g))).tokens = pre ++ [t] ∧
      t.kind.isJoint = true := by
  obtain ⟨pre, t, hg, ht⟩ := g.tokens_of_ne_start h
  refine ⟨closed.tokens ++ (headTokens head ++ (nestTokens Frame.tokens fs ++ pre)), t, ?_, ht⟩
  simp [Draft.tokens, Current.tokens, Place.tokens, hg]

end Draft

/-! ## Parentheses that close -/

/-- A closing parenthesis is the only token of its turn. -/
theorem Turn.eq_single {c d : Control} {ts : List Token} {t : Token} (h : Turn c ts d) (ht : t ∈ ts)
    (hclose : t.kind = .closeParen) : ts = [t] := by
  cases h with
  | silent => cases ht
  | typed h hc | openCall h hc =>
    rcases List.mem_cons.mp ht with rfl | ht
    · rw [h] at hclose
      cases hclose
    · rw [List.mem_singleton.mp ht, hc] at hclose
      cases hclose
  | _ => rw [List.mem_singleton.mp ht]

/-- A lexer that has finished a closing parenthesis did so in a turn, with the tokens before it
behind it. -/
theorem Turns.split {c d : Control} {ts pre post : List Token} {t : Token} (h : Turns c ts d)
    (hts : ts = pre ++ t :: post) (hclose : t.kind = .closeParen) :
    ∃ c' d', Turns c pre c' ∧ Turn c' [t] d' := by
  induction h generalizing post with
  | start => cases pre <;> cases hts
  | @next ts us d e before turn ih =>
    rcases List.append_eq_append_iff.mp hts with ⟨rest, rfl, hus⟩ | ⟨rest, rfl, hus⟩
    · have hsingle := turn.eq_single (by rw [hus]; simp) hclose
      rw [hsingle] at hus turn
      obtain ⟨rfl, -⟩ : rest = [] ∧ post = [] := by
        cases rest <;> simp_all
      rw [List.append_nil]
      exact ⟨d, e, before, turn⟩
    · cases rest with
      | nil =>
        have hsingle := turn.eq_single (t := t) (by rw [← List.nil_append us, ← hus]; simp) hclose
        rw [hsingle] at turn
        rw [List.append_nil] at before
        exact ⟨d, e, before, turn⟩
      | cons u rest =>
        cases hus
        exact ih rfl

namespace Draft

variable {closed : Closed} {head : Option LetHead} {fs : List Frame} {t : Token}

/-- Inside of a group an operand is lacking unless the group is empty. -/
theorem amiss_of_gap {g : Gap} {c : Nat × List Nat} (h : Deeper (counts fs) c)
    (ht : t.kind = .closeParen)
    (hearly : EndsEarly (Draft.mk closed (.expression head fs (.gap g))).tokens) :
    Amiss ⟨closed, .expression head fs (.gap g)⟩ t := by
  obtain ⟨f, rest, rfl, -⟩ := of_deeper h
  refine .closing ?_ ht
  rintro rfl
  exact (sated_start closed head rest f).not_endsEarly hearly

/-- A parenthesis that closes right behind an operator or a comma comes amiss. -/
theorem amiss_of_close {d : Draft} {c c' : Control} (fits : Fits d.current c)
    (turn : Turn c [t] c') (ht : t.kind = .closeParen) (hearly : EndsEarly d.tokens) :
    d.Amiss t := by
  obtain ⟨closed, current⟩ := d
  cases turn with
  | closeInnerTuple | closeOuterTuple =>
    cases fits with
    | typeList => exact ((sated_typeList closed _ _ _ _ _).not_endsEarly hearly).elim
    | gap hs | list hs => cases hs
  | closeGroup =>
    cases fits with
    | gap hs hc => exact amiss_of_gap (by rw [hc]; exact .group) ht hearly
    | list => exact ((sated_list closed _ _ _).not_endsEarly hearly).elim
  | closeCall =>
    cases fits with
    | gap hs hc => exact amiss_of_gap (by rw [hc]; exact .call) ht hearly
    | list => exact ((sated_list closed _ _ _).not_endsEarly hearly).elim
  | letWord h | untyped h | tupleWord h | elementType h | wholeType h | openTuple h | typeComma h
  | assign h | openGroup h | binary h | unary h | comma h | semicolon h =>
    rw [ht] at h
    cases h
  | value hs h =>
    rw [ht] at h
    rcases h with h | h <;> cases h

/-- A parser that takes what there is of a draft does not take what comes amiss. -/
theorem Amiss.not_takes {d : Draft} {us : List Token} {p : Parser} (amiss : d.Amiss t)
    (huncomma : Uncomma d.tokens) : ¬ Takes (d.tokens ++ t :: us) Parser.empty p := by
  intro h
  obtain ⟨r, u, -, hr⟩ := amiss.push
  have hrefused := pushAll_of_refused (d.takes huncomma) hr us
  rw [takes_iff_pushAll.mp h] at hrefused
  cases (Prod.mk.inj (Prod.mk.inj hrefused).2).2

end Draft

/-- Among the tokens of a lexer that a parser takes, no parenthesis closes right behind an operator
or a comma. -/
theorem Turns.not_closesEarly {c : Control} {ts : List Token} {p : Parser}
    (turns : Turns ⟨.statementHead, 0, []⟩ ts c) (takes : Takes ts Parser.empty p) :
    ¬ ClosesEarly ts := by
  rintro ⟨u, closing, ⟨pre, post, hpair⟩, hu, hclosing⟩
  have hts : ts = (pre ++ [u]) ++ closing :: post := by
    rw [← hpair]
    simp
  have huncomma := turns.uncomma
  obtain ⟨c', d', before, turn⟩ := turns.split hts hclosing
  subst hts
  cases Draft.followed before with
  | fits d fits tokens =>
    have hearly : EndsEarly d.tokens := by
      rw [tokens]
      exact ⟨u, by simp, .inl hu⟩
    rw [← tokens] at takes huncomma
    exact (Draft.amiss_of_close fits turn hclosing hearly).not_takes
      (uncomma_append.mp huncomma).1 takes
  | amiss d t rest amiss tokens =>
    rw [tokens, List.append_assoc] at takes huncomma
    exact amiss.not_takes (uncomma_append.mp huncomma).1 takes

/-! ## The end of a draft -/

namespace Draft

/-- Where an operand is awaited behind something, that is an operator, a comma or the assignment
sign. -/
theorem Lacks.tokens {d : Draft} {t : Token} (h : d.Lacks t) :
    ∃ pre u, d.tokens = pre ++ [u] ∧ (u.kind.isJoint = true ∨ u.kind = .keyword .assign) := by
  cases h with
  | @gap closed head fs g t blames =>
    by_cases hg : g = .start
    · subst hg
      cases fs with
      | nil =>
        cases head with
        | none => cases blames
        | some head =>
          refine ⟨closed.tokens ++ head.word.1 :: head.target.tokens, head.assign.1, ?_,
            .inr head.assign.2⟩
          simp [Draft.tokens, Current.tokens, headTokens, LetHead.tokens, nestTokens,
            Place.tokens, Gap.tokens]
      | cons f fs => cases blames
    · obtain ⟨pre, u, htokens, hu⟩ := tokens_of_ne_start closed head fs hg
      exact ⟨pre, u, htokens, .inl hu⟩

theorem Lacks.endsEarly {d : Draft} {t : Token} (h : d.Lacks t) : EndsEarly d.tokens := by
  obtain ⟨pre, u, htokens, hu⟩ := h.tokens
  refine ⟨u, ?_, hu⟩
  rw [htokens]
  exact List.getLast?_concat

/-- The end of the tokens of a draft that lacks an operand. -/
theorem Lacks.drain {d : Draft} {t : Token} (h : d.Lacks t) :
    ∃ q, d.parser.drain = (q, some (missing t)) := by
  cases h with
  | @gap closed head fs g t blames =>
    exact drain_missing (ground_within (ground_base (headWord head) closed.trees)
      (nestScopes Frame.scope (headLead head) fs)) blames

/-- What is wrong with a draft when its tokens are over, and what the end of them comes to. -/
inductive Ending (d : Draft) : Prop where
  | lacking {q : Parser} {t : Token} (lacks : d.Lacks t)
      (drain : d.parser.drain = (q, some (missing t)))
  | unclosed {q : Parser} {o : Token} {os : List Token} (sated : ¬ EndsEarly d.tokens)
      (opened : unclosed d.tokens = o :: os) (drain : d.parser.drain = (q, some (mismatched o)))
  | whole {trees : List Tree} (sated : ¬ EndsEarly d.tokens) (opened : unclosed d.tokens = [])
      (drain : d.parser.drain = (between trees, none))

variable (closed : Closed) (head : Option LetHead)

/-- Before a statement there is nothing that lacks or is open. -/
theorem ending_start : Ending ⟨closed, .expression none [] (.gap .start)⟩ := by
  have htokens : (Draft.mk closed (.expression none [] (.gap .start))).tokens = closed.tokens :=
    List.append_nil _
  refine .whole ?_ (unclosed_tokens closed none [] _) (drain_between closed.trees)
  rw [htokens]
  exact closed.not_endsEarly

/-- Behind a list the innermost group is not closed, if there is one. -/
theorem ending_list {fs : List Frame} {l : Exprs}
    (rooted : Rooted (·.gap.IsPlain) fs l.IsOne) :
    Ending ⟨closed, .expression head fs (.list l)⟩ := by
  have hsated := (sated_list closed head fs l).not_endsEarly
  have hopened := unclosed_tokens closed head fs (.list l)
  cases fs with
  | nil =>
    cases l with
    | one e => exact .whole hsated hopened (Stmt.drain_row head e closed.trees)
    | more l comma e => exact rooted.elim
  | cons f fs =>
    have hground := ground_within (ground_base (headWord head) closed.trees)
      (nestScopes Frame.scope (headLead head) (f :: fs))
    have hfolds := folds_drain.shifted (Nat.le_of_eq hground.floor)
      (Lead.row none l.operands).stack l.last
    exact .unclosed hsated hopened hfolds

/-- Where an operand is awaited it is lacking, unless nothing waits for it. -/
theorem ending_gap (fs : List Frame) (g : Gap) :
    Ending ⟨closed, .expression head fs (.gap g)⟩ := by
  by_cases hwaits : g.bangs ≠ [] ∨ g.stack (nestLead (headLead head) fs) ≠ []
  · obtain ⟨t, ht⟩ := exists_blamed hwaits
    obtain ⟨q, hdrain⟩ := (Lacks.gap ht : Lacks ⟨closed, .expression head fs (.gap g)⟩ t).drain
    exact .lacking (.gap ht) hdrain
  · have hg : g = .start := by
      by_contra hg
      exact hwaits (Gap.waits_of_ne_start hg _)
    subst hg
    cases fs with
    | nil =>
      cases head with
      | none => exact ending_start closed
      | some head => exact (hwaits (.inr (List.cons_ne_nil _ _))).elim
    | cons f fs =>
      exact .unclosed (sated_start closed head fs f).not_endsEarly
        (unclosed_tokens closed head (f :: fs) _) rfl

/-- A draft ends in one of three ways where a lexer lets the input end. -/
theorem ending {d : Draft} {c : Control} (fits : Fits d.current c)
    (hend : c.state.mayEnd = true) : d.Ending := by
  obtain ⟨closed, current⟩ := d
  cases fits with
  | initial => exact ending_start closed
  | gap => exact ending_gap closed _ _ _
  | list _ _ rooted => exact ending_list closed _ rooted
  | word | target | typeGap | typeWord | typeList => cases hend

end Draft

/-! ## Sources -/

open Lexer

/-- What tokens come to that a parser takes and for which it has nothing reported. -/
theorem conclude_of_taken_quiet {ts : List Token} {p : Parser} (h : Takes ts Parser.empty p)
    (hp : p.diagnostics = []) :
    (Intake.sink.feed Intake.start ts).conclude.2 = p.finish.2 := by
  rw [show Intake.start = ⟨Parser.empty, none⟩ from rfl, ← List.append_nil ts, feed_of_takes h]
  show (Intake.mk p none).conclude.2 = _
  rw [(conclude_of_taken p).2, hp]
  rfl

/-- The turns of a lexer that has nothing to report: the tokens are all of the source, and the state
is one in which the input may end. -/
theorem turns_of_clean {source : List Char} {file : String}
    (clean : ∀ t ∈ (ofRunes source file).tokens.1, t.kind ≠ .error) :
    ∃ c : Control, Turns ⟨.statementHead, 0, []⟩ (ofRunes source file).tokens.1 c ∧
      c.state.mayEnd = true := by
  obtain ⟨ts, state, m, n, work, quiet, hts⟩ := tokens_cases source file
  rcases hts with ⟨hend, -, hts⟩ | ⟨problem, hts⟩
  · rw [hts]
    exact ⟨_, work.turns, hend⟩
  · rw [hts] at clean
    exact (clean (Lexer.report ⟨problem, ⟨n.offset, n.file⟩⟩) (by simp) rfl).elim

/-- What comes amiss comes right behind an operator or a comma. -/
theorem Draft.Amiss.tokens {d : Draft} {closing : Token} (h : d.Amiss closing) :
    closing.kind = .closeParen ∧ ∃ pre u, d.tokens = pre ++ [u] ∧ u.kind.isJoint = true := by
  cases h with
  | @closing closed head f fs g t hg ht => exact ⟨ht, tokens_of_ne_start closed head (f :: fs) hg⟩

theorem Draft.Amiss.closesEarly {d : Draft} {closing : Token} (h : d.Amiss closing)
    (post : List Token) : ClosesEarly (d.tokens ++ closing :: post) := by
  obtain ⟨hclosing, pre, u, htokens, hu⟩ := h.tokens
  refine ⟨u, closing, ⟨pre, post, ?_⟩, hu, hclosing⟩
  rw [htokens]
  simp

/-- What may be said of the tokens of a source of which the lexer has nothing to report, and what
they come to. -/
inductive Judged : List Token → Except Diagnostic (List Tree) → Prop where
  /-- The tokens end where an operand is awaited. -/
  | ends {d : Draft} {t : Token} (lacks : d.Lacks t) (smooth : ¬ ClosesEarly d.tokens) :
      Judged d.tokens (.error (missing t))
  /-- A parenthesis closes where an operand is awaited. -/
  | closes {d : Draft} {t closing : Token} {post : List Token} (lacks : d.Lacks t)
      (smooth : ¬ ClosesEarly d.tokens) (amiss : d.Amiss closing) :
      Judged (d.tokens ++ closing :: post) (.error (missing t))
  | unclosed {ts : List Token} {o : Token} {os : List Token} (full : ¬ LacksOperand ts)
      (opened : unclosed ts = o :: os) : Judged ts (.error (mismatched o))
  | accepted {ts : List Token} {trees : List Tree} (full : ¬ LacksOperand ts)
      (opened : unclosed ts = []) : Judged ts (.ok trees)

namespace Judged

variable {ts : List Token} {result : Except Diagnostic (List Tree)}

theorem missing (h : Judged ts result) (lacks : LacksOperand ts) :
    ∃ text position, result = .error ⟨.missingOperand text, position⟩ := by
  cases h with
  | ends | closes => exact ⟨_, _, rfl⟩
  | unclosed full | accepted full => exact (full lacks).elim

theorem mismatched {o : Token} {os : List Token} (h : Judged ts result)
    (full : ¬ LacksOperand ts) (opened : ExprYard.unclosed ts = o :: os) :
    result = .error ⟨.mismatchedParenthesis, o.position⟩ := by
  cases h with
  | ends lacks => exact (full (.inr lacks.endsEarly)).elim
  | closes _ _ amiss => exact (full (.inl (amiss.closesEarly _))).elim
  | unclosed _ opened' =>
    rw [opened] at opened'
    cases opened'
    rfl
  | accepted _ opened' =>
    rw [opened] at opened'
    cases opened'

theorem exists_trees (h : Judged ts result) (full : ¬ LacksOperand ts)
    (opened : ExprYard.unclosed ts = []) : ∃ trees, result = .ok trees := by
  cases h with
  | ends lacks => exact (full (.inr lacks.endsEarly)).elim
  | closes _ _ amiss => exact (full (.inl (amiss.closesEarly _))).elim
  | unclosed _ opened' =>
    rw [opened] at opened'
    cases opened'
  | accepted => exact ⟨_, rfl⟩

theorem problem {d : Diagnostic} (h : Judged ts result) (hd : result = .error d) :
    (∃ text, d.problem = .missingOperand text) ∨ d.problem = .mismatchedParenthesis := by
  cases h with
  | ends | closes =>
    cases hd
    exact .inl ⟨_, rfl⟩
  | unclosed =>
    cases hd
    exact .inr rfl
  | accepted => cases hd

end Judged

/-- What a draft comes to that has come to its end. -/
theorem Draft.Ending.judged {d : Draft} (h : d.Ending) (hcloses : ¬ ClosesEarly d.tokens) :
    Judged d.tokens d.parser.finish.2 := by
  cases h with
  | lacking lacks drain =>
    rw [Parser.finish_of_failed drain]
    exact .ends lacks hcloses
  | unclosed sated opened drain =>
    rw [Parser.finish_of_failed drain]
    exact .unclosed (fun h => h.elim hcloses sated) opened
  | whole sated opened drain =>
    rw [Parser.finish_of_drain drain]
    exact .accepted (fun h => h.elim hcloses sated) opened

/-- The verdict on tokens that a lexer finishes where the input may end. -/
theorem Turns.judged {c : Control} {ts : List Token} (turns : Turns ⟨.statementHead, 0, []⟩ ts c)
    (hend : c.state.mayEnd = true) : Judged ts (Intake.sink.feed Intake.start ts).conclude.2 := by
  have huncomma := turns.uncomma
  cases Draft.followed turns with
  | amiss d t post amiss tokens =>
    have htakes := d.takes (uncomma_append.mp (tokens ▸ huncomma)).1
    obtain ⟨c', d', before, -⟩ := turns.split tokens amiss.tokens.1
    subst tokens
    obtain ⟨r, u, lacks, hr⟩ := amiss.push
    rw [show Intake.start = ⟨Parser.empty, none⟩ from rfl, conclude_of_refused htakes hr]
    exact .closes lacks (before.not_closesEarly htakes) amiss
  | fits d fits tokens =>
    subst tokens
    have htakes := d.takes huncomma
    rw [conclude_of_taken_quiet htakes (htakes.diagnostics turns.isSpoken)]
    exact (Draft.ending fits hend).judged (turns.not_closesEarly htakes)

/-- The verdict on a source of which the lexer has nothing to report. -/
theorem judged_of_clean {source : List Char} {file : String}
    (clean : ∀ t ∈ (ofRunes source file).tokens.1, t.kind ≠ .error) :
    Judged (ofRunes source file).tokens.1 (parseLexer (ofRunes source file)).1.2 := by
  obtain ⟨c, turns, hend⟩ := turns_of_clean clean
  rw [parseLexer_ofRunes]
  exact turns.judged hend

/-- A source of which the lexer has nothing to report lacks an operand where a parenthesis closes
right behind an operator or a comma, and where its tokens end in one or in the assignment sign. If
it lacks none, it has a parenthesis mismatched, and that is the last one that is never closed. If
there is no such parenthesis, it is accepted. Nothing else is wrong with any such source. -/
theorem verdict_of_tokens (source : List Char) (file : String)
    (clean : ∀ t ∈ (ofRunes source file).tokens.1, t.kind ≠ .error) :
    (LacksOperand (ofRunes source file).tokens.1 → ∃ text position,
      (parseLexer (ofRunes source file)).1.2 = .error ⟨.missingOperand text, position⟩) ∧
    (¬ LacksOperand (ofRunes source file).tokens.1 →
      ∀ o os, unclosed (ofRunes source file).tokens.1 = o :: os →
        (parseLexer (ofRunes source file)).1.2 = .error ⟨.mismatchedParenthesis, o.position⟩) ∧
    (¬ LacksOperand (ofRunes source file).tokens.1 →
      unclosed (ofRunes source file).tokens.1 = [] →
        ∃ trees, (parseLexer (ofRunes source file)).1.2 = .ok trees) ∧
    ∀ d, (parseLexer (ofRunes source file)).1.2 = .error d →
      (∃ text, d.problem = .missingOperand text) ∨ d.problem = .mismatchedParenthesis := by
  have hjudged := judged_of_clean clean
  exact ⟨hjudged.missing, fun full o os opened => hjudged.mismatched full opened,
    hjudged.exists_trees, fun d hd => hjudged.problem hd⟩

/-- Of the two parentheses of `f((a),(` that are never closed, the last one is what is wrong. -/
theorem verdict_of_tokens_unclosed :
    (parseLexer (ofRunes ['f', '(', '(', 'a', ')', ',', '('] "shell")).1.2
      = .error ⟨.mismatchedParenthesis, ⟨6, "shell"⟩⟩ :=
  (verdict_of_tokens ['f', '(', '(', 'a', ')', ',', '('] "shell" (by decide +kernel)).2.1
    (by decide +kernel) ⟨.openParen, "(", 6, 7, "shell"⟩ [⟨.openParen, "(", 1, 2, "shell"⟩]
    (by decide +kernel)

end ExprYard
