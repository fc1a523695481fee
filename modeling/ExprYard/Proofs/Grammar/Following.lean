import ExprYard.Proofs.Grammar.Statements
import ExprYard.Proofs.Lexer.Course

/-!
# A lexer follows the grammar

A lexer knows of the grammar what it needs to tell which token may come next: its state and two
counts of parentheses. `Fits` says which drafts of a program these may stand for. Every turn of a
lexer takes a draft that fits to one that fits (`Draft.turn`), with a single exception: a lexer lets
a parenthesis close where an operand is awaited, so that groups may be empty, and it does so also
where an operator still waits for that operand. There the tokens are the beginning of no program,
and a parser refuses the parenthesis (`Draft.Amiss`).
-/

namespace ExprYard

open ExprYard.Parser

namespace State

/-- Whether an operand is awaited in a state. -/
def awaitsOperand : State → Bool
  | .operand | .name | .number | .fraction | .unaryOperator | .closing => true
  | _ => false

/-- Whether an operand has been read in a state. -/
def followsOperand : State → Bool
  | .afterOperand | .closing | .comma | .semicolon | .binaryOperator => true
  | _ => false

/-- Whether a statement begins in a state. -/
def beginsStatement : State → Bool
  | .statementHead | .leadingWord => true
  | _ => false

/-- A state leaves its work to one that awaits an operand as it does, if it does. -/
theorem awaitsOperand_of_silent {s s' : State} (h : s.awaitsOperand = true)
    (hs : s' ∈ s.silent) : s'.awaitsOperand = true := by
  revert h hs
  cases s <;> cases s' <;> decide

theorem followsOperand_of_silent {s s' : State} (h : s.followsOperand = true)
    (hs : s' ∈ s.silent) : s'.followsOperand = true := by
  revert h hs
  cases s <;> cases s' <;> decide

theorem of_beginsStatement_of_silent {s s' : State} (h : s.beginsStatement = true)
    (hs : s' ∈ s.silent) : s'.beginsStatement = true ∨ s'.awaitsOperand = true := by
  revert h hs
  cases s <;> cases s' <;> decide

end State

/-! ## Counts -/

/-- The counts of parentheses that a lexer keeps for open groups. -/
def counts : List Frame → Nat × List Nat
  | [] => (0, [])
  | f :: fs =>
    match f.call with
    | none => ((counts fs).1 + 1, (counts fs).2)
    | some _ => (0, (counts fs).1 :: (counts fs).2)

/-- Counts of open parentheses with one more group than the given ones, or with one more call. -/
inductive Deeper : Nat × List Nat → Nat × List Nat → Prop where
  | group {p : Nat} {os : List Nat} : Deeper (p + 1, os) (p, os)
  | call {p : Nat} {os : List Nat} : Deeper (0, p :: os) (p, os)

/-- Where there is something to close, the innermost frame is of that kind. -/
theorem of_deeper {fs : List Frame} {c : Nat × List Nat} (h : Deeper (counts fs) c) :
    ∃ f rest, fs = f :: rest ∧ counts rest = c := by
  cases fs with
  | nil => cases h
  | cons f rest =>
    refine ⟨f, rest, rfl, ?_⟩
    unfold counts at h
    cases hf : f.call with
    | none =>
      rw [hf] at h
      cases h
      rfl
    | some name =>
      rw [hf] at h
      cases h
      rfl

/-- What is open between the outermost list and a place, the plainness of which is given, leaves the
outermost list plain: a comma stands in parentheses only. -/
def Rooted {α : Type} (plain : α → Prop) : List α → Prop → Prop
  | [], bottom => bottom
  | f :: fs, _ => Rooted plain fs (plain f)

theorem Rooted.imp {α : Type} {plain : α → Prop} {fs : List α} {a b : Prop} (hab : a → b)
    (h : Rooted plain fs a) : Rooted plain fs b := by
  cases fs with
  | nil => exact hab h
  | cons f fs => exact h

/-- Whether no type has been read at a place. -/
def TypeGap.IsStart : TypeGap → Prop
  | start => True
  | comma .. => False

/-! ## Drafts that fit -/

/-- What a lexer knows may stand for what there is of a statement. -/
inductive Fits : Current → Control → Prop where
  /-- No statement has begun. -/
  | initial {s : State} (hs : s.beginsStatement = true) :
      Fits (.expression none [] (.gap .start)) ⟨s, 0, []⟩
  | gap {head : Option LetHead} {fs : List Frame} {g : Gap} {s : State} {p : Nat} {os : List Nat}
      (hs : s.awaitsOperand = true) (hc : counts fs = (p, os))
      (rooted : Rooted (·.gap.IsPlain) fs g.IsPlain) :
      Fits (.expression head fs (.gap g)) ⟨s, p, os⟩
  | list {head : Option LetHead} {fs : List Frame} {l : Exprs} {s : State} {p : Nat}
      {os : List Nat} (hs : s.followsOperand = true) (hc : counts fs = (p, os))
      (rooted : Rooted (·.gap.IsPlain) fs l.IsOne) :
      Fits (.expression head fs (.list l)) ⟨s, p, os⟩
  | word {w : Token.Is (.keyword .letWord)} : Fits (.word w) ⟨.letName, 0, []⟩
  | target {w : Token.Is (.keyword .letWord)} {t : Target} : Fits (.target w t) ⟨.letAssign, 0, []⟩
  | typeGap {w : Token.Is (.keyword .letWord)} {name : Token.Is .identifier}
      {colon : Token.Is (.keyword .typeSeparator)} {fs : List TypeFrame} {g : TypeGap} {p : Nat}
      (hp : fs.length = p) (rooted : Rooted (·.gap.IsStart) fs g.IsStart) :
      Fits (.typing w name colon fs (.gap g)) ⟨.letType, p, []⟩
  | typeWord {w : Token.Is (.keyword .letWord)} {name : Token.Is .identifier}
      {colon : Token.Is (.keyword .typeSeparator)} {fs : List TypeFrame} {g : TypeGap}
      {word : Token.Is (.type .tuple)} {p : Nat} (hp : fs.length = p)
      (rooted : Rooted (·.gap.IsStart) fs g.IsStart) :
      Fits (.typing w name colon fs (.word g word)) ⟨.tupleTypeOpen, p, []⟩
  | typeList {w : Token.Is (.keyword .letWord)} {name : Token.Is .identifier}
      {colon : Token.Is (.keyword .typeSeparator)} {f : TypeFrame} {fs : List TypeFrame} {l : Tys}
      {p : Nat} (hp : fs.length = p) (rooted : Rooted (·.gap.IsStart) fs f.gap.IsStart) :
      Fits (.typing w name colon (f :: fs) (.list l)) ⟨.tupleTypeNext, p + 1, []⟩

namespace Draft

/-- A closing parenthesis comes where an operator waits for an operand. -/
inductive Amiss : Draft → Token → Prop where
  | closing {closed : Closed} {head : Option LetHead} {f : Frame} {fs : List Frame} {g : Gap}
      {t : Token} (hg : g ≠ .start) (ht : t.kind = .closeParen) :
      Amiss ⟨closed, .expression head (f :: fs) (.gap g)⟩ t

/-- An operand is awaited, and if it does not come it is the given token that a parser says lacks
it. -/
inductive Lacks : Draft → Token → Prop where
  | gap {closed : Closed} {head : Option LetHead} {fs : List Frame} {g : Gap} {t : Token}
      (blames : blamed g.bangs (g.stack (nestLead (headLead head) fs)) = some t) :
      Lacks ⟨closed, .expression head fs (.gap g)⟩ t

/-- What a turn makes of a draft: one that fits what the lexer then knows, or it is amiss. -/
inductive Turned (d : Draft) (c : Control) : List Token → Prop where
  | fits {ts : List Token} (d' : Draft) (fits : Fits d'.current c)
      (tokens : d'.tokens = d.tokens ++ ts) : Turned d c ts
  | amiss {t : Token} (amiss : d.Amiss t) : Turned d c [t]

variable {closed : Closed} {head : Option LetHead} {fs : List Frame} {c : Control}

/-- An operand takes its place in the innermost list. -/
theorem turned_fill {g : Gap} {u : Unary} {p : Nat} {os : List Nat}
    (hc : counts fs = (p, os)) (rooted : Rooted (·.gap.IsPlain) fs g.IsPlain) :
    Turned ⟨closed, .expression head fs (.gap g)⟩ ⟨.afterOperand, p, os⟩ u.tokens := by
  refine .fits ⟨closed, .expression head fs (.list (g.fill u))⟩ ?_ ?_
  · exact .list rfl hc (rooted.imp fun h => Gap.isOne_fill h u)
  · simp [Draft.tokens, Current.tokens, Place.tokens, Gap.tokens_fill]

/-- A group closes around what stands in it. -/
theorem turned_frame {f : Frame} {place : Place} {p : Nat} {os : List Nat} (contents : Contents)
    (closing : Token.Is .closeParen) (hcontents : contents.tokens = place.tokens)
    (hc : counts fs = (p, os)) (rooted : Rooted (·.gap.IsPlain) fs f.gap.IsPlain) :
    Turned ⟨closed, .expression head (f :: fs) place⟩ ⟨.afterOperand, p, os⟩ [closing.1] := by
  refine .fits ⟨closed, .expression head fs (.list (f.gap.fill (f.close contents closing)))⟩ ?_ ?_
  · exact .list rfl hc (rooted.imp fun h => Gap.isOne_fill h _)
  · simp [Draft.tokens, Current.tokens, Place.tokens, Gap.tokens_fill, Frame.tokens_close,
      nestTokens, Frame.tokens, hcontents]

/-- The innermost group closes, unless it lacks an operand. -/
theorem turned_close {place : Place} {t : Token} {p : Nat} {os : List Nat} {b : Prop}
    (ht : t.kind = .closeParen) (h : Deeper (counts fs) (p, os))
    (rooted : Rooted (·.gap.IsPlain) fs b) :
    Turned ⟨closed, .expression head fs place⟩ ⟨.afterOperand, p, os⟩ [t] := by
  obtain ⟨f, rest, rfl, hc⟩ := of_deeper h
  cases place with
  | gap g =>
    by_cases hg : g = .start
    · subst hg
      exact turned_frame .empty ⟨t, ht⟩ rfl hc rooted
    · exact .amiss (.closing hg ht)
  | list l => exact turned_frame (.list l) ⟨t, ht⟩ rfl hc rooted

/-- What a lexer knows behind a type, inside of so many tuple types. -/
def behindType : Nat → Control
  | 0 => ⟨.letAssign, 0, []⟩
  | n + 1 => ⟨.tupleTypeNext, n + 1, []⟩

/-- A type takes its place in the innermost tuple, or it is the type of what is declared. -/
theorem turned_type {w : Token.Is (.keyword .letWord)} {name : Token.Is .identifier}
    {colon : Token.Is (.keyword .typeSeparator)} {tfs : List TypeFrame} {g : TypeGap} (t : Ty)
    (rooted : Rooted (·.gap.IsStart) tfs g.IsStart) {d : Draft} {ts : List Token}
    (htokens : d.tokens ++ ts = (Draft.mk closed (.typing w name colon tfs (.gap g))).tokens
      ++ t.tokens) :
    Turned d (behindType tfs.length) ts := by
  cases tfs with
  | nil =>
    cases g with
    | start =>
      refine .fits ⟨closed, .target w ⟨name, some (colon, t)⟩⟩ .target ?_
      rw [htokens]
      simp [Draft.tokens, Current.tokens, TypePlace.tokens, Target.tokens, nestTokens,
        TypeGap.tokens]
    | comma l c => exact rooted.elim
  | cons f tfs =>
    refine .fits ⟨closed, .typing w name colon (f :: tfs) (.list (g.fill t))⟩
      (.typeList rfl rooted) ?_
    rw [htokens]
    simp [Draft.tokens, Current.tokens, TypePlace.tokens, TypeGap.tokens_fill]

/-- A word for a type is one. -/
theorem turned_scalar {w : Token.Is (.keyword .letWord)} {name : Token.Is .identifier}
    {colon : Token.Is (.keyword .typeSeparator)} {tfs : List TypeFrame} {g : TypeGap} {t : Token}
    {word : TypeWord} {n : Nat} (h : t.kind = .type word) (hw : word ≠ .tuple)
    (hn : tfs.length = n) (rooted : Rooted (·.gap.IsStart) tfs g.IsStart) :
    Turned ⟨closed, .typing w name colon tfs (.gap g)⟩ (behindType n) [t] := by
  subst hn
  have htokens : (Draft.mk closed (.typing w name colon tfs (.gap g))).tokens ++ [t]
      = (Draft.mk closed (.typing w name colon tfs (.gap g))).tokens
        ++ (Ty.scalar ⟨t, word, h, hw⟩).tokens := rfl
  exact turned_type _ rooted htokens

/-- A tuple type closes around what stands in it. -/
theorem turned_tuple {w : Token.Is (.keyword .letWord)} {name : Token.Is .identifier}
    {colon : Token.Is (.keyword .typeSeparator)} {f : TypeFrame} {tfs : List TypeFrame} {l : Tys}
    {t : Token} {n : Nat} (h : t.kind = .closeParen) (hn : tfs.length = n)
    (rooted : Rooted (·.gap.IsStart) tfs f.gap.IsStart) :
    Turned ⟨closed, .typing w name colon (f :: tfs) (.list l)⟩ (behindType n) [t] := by
  subst hn
  have htokens : (Draft.mk closed (.typing w name colon (f :: tfs) (.list l))).tokens ++ [t]
      = (Draft.mk closed (.typing w name colon tfs (.gap f.gap))).tokens
        ++ (Ty.tuple f.word f.opening l ⟨t, h⟩).tokens := by
    simp [Draft.tokens, Current.tokens, TypePlace.tokens, nestTokens, TypeFrame.tokens, Ty.tokens]
  exact turned_type _ rooted htokens

/-- A group or a call opens within the innermost list. -/
theorem turned_open {f : Frame} {p : Nat} {os : List Nat} (hc : counts (f :: fs) = (p, os))
    (rooted : Rooted (·.gap.IsPlain) fs f.gap.IsPlain) :
    Turned ⟨closed, .expression head fs (.gap f.gap)⟩ ⟨.operand, p, os⟩ f.bracket := by
  refine .fits ⟨closed, .expression head (f :: fs) (.gap .start)⟩ (.gap rfl hc rooted) ?_
  simp [Draft.tokens, Current.tokens, Place.tokens, nestTokens, Frame.tokens, Gap.tokens]

/-- A comma follows inside of some parenthesis. -/
theorem turned_comma {l : Exprs} {t : Token} {p : Nat} {os : List Nat}
    (h : t.kind = .keyword .comma) (inside : p ≠ 0 ∨ os ≠ []) (hc : counts fs = (p, os))
    (rooted : Rooted (·.gap.IsPlain) fs l.IsOne) :
    Turned ⟨closed, .expression head fs (.list l)⟩ ⟨.operand, p, os⟩ [t] := by
  cases fs with
  | nil =>
    cases hc
    exact (inside.elim (fun hp => hp rfl) fun ho => ho rfl).elim
  | cons f fs =>
    refine .fits ⟨closed, .expression head (f :: fs) (.gap (.comma l ⟨t, h⟩))⟩
      (.gap rfl hc rooted) ?_
    simp [Draft.tokens, Current.tokens, Place.tokens, Gap.tokens]

/-- A statement ends outside of all parentheses, with one expression. -/
theorem turned_semicolon {l : Exprs} {t : Token} (h : t.kind = .keyword .semicolon)
    (hc : counts fs = (0, [])) (rooted : Rooted (·.gap.IsPlain) fs l.IsOne) :
    Turned ⟨closed, .expression head fs (.list l)⟩ ⟨.statementHead, 0, []⟩ [t] := by
  cases fs with
  | nil =>
    cases l with
    | one e =>
      refine .fits ⟨closed ++ [(Stmt.of head e, ⟨t, h⟩)],
        .expression none [] (.gap .start)⟩ (.initial rfl) ?_
      simp [Draft.tokens, Current.tokens, Place.tokens, Gap.tokens, Closed.tokens,
        Stmt.tokens_of, Exprs.tokens, nestTokens, headTokens]
    | more l c e => exact rooted.elim
  | cons f fs =>
    unfold counts at hc
    cases hf : f.call <;> rw [hf] at hc <;> cases hc

/-- What fits where a state begins fits where that state leaves the rest to another. -/
theorem fits_of_silent {current : Current} {s s' : State} {p : Nat} {os : List Nat}
    (fits : Fits current ⟨s, p, os⟩) (h : s' ∈ s.silent) : Fits current ⟨s', p, os⟩ := by
  cases fits with
  | initial hs =>
    rcases State.of_beginsStatement_of_silent hs h with hs | hs
    · exact .initial hs
    · exact .gap hs rfl trivial
  | gap hs hc rooted => exact .gap (State.awaitsOperand_of_silent hs h) hc rooted
  | list hs hc rooted => exact .list (State.followsOperand_of_silent hs h) hc rooted
  | word | target | typeGap | typeWord | typeList => cases h

/-- Every turn of a lexer takes a draft that fits to one that fits, or it is amiss. -/
theorem turn (closed : Closed) {current : Current} {c c' : Control} {ts : List Token}
    (fits : Fits current c) (turn : Turn c ts c') : Turned ⟨closed, current⟩ c' ts := by
  cases turn with
  | silent h => exact .fits ⟨closed, current⟩ (fits_of_silent fits h) (List.append_nil _).symm
  | @letWord t p os h =>
    cases fits with
    | initial hs =>
      exact .fits ⟨closed, .word ⟨t, h⟩⟩ .word (by
        simp [Draft.tokens, Current.tokens, headTokens, nestTokens, Place.tokens, Gap.tokens])
    | gap hs | list hs => cases hs
  | @typed t colon p os h hc =>
    cases fits with
    | @word w =>
      refine .fits ⟨closed, .typing w ⟨t, h⟩ ⟨colon, hc⟩ [] (.gap .start)⟩ (.typeGap rfl trivial) ?_
      simp [Draft.tokens, Current.tokens, nestTokens, TypePlace.tokens, TypeGap.tokens]
    | initial hs | gap hs | list hs => cases hs
  | @untyped t p os h =>
    cases fits with
    | @word w =>
      refine .fits ⟨closed, .target w ⟨⟨t, h⟩, none⟩⟩ .target ?_
      simp [Draft.tokens, Current.tokens, Target.tokens]
    | initial hs | gap hs | list hs => cases hs
  | @tupleWord t p os h =>
    cases fits with
    | @typeGap w name colon tfs g p hp rooted =>
      refine .fits ⟨closed, .typing w name colon tfs (.word g ⟨t, h⟩)⟩ (.typeWord hp rooted) ?_
      simp [Draft.tokens, Current.tokens, TypePlace.tokens]
    | initial hs | gap hs | list hs => cases hs
  | @elementType t word p os h hw =>
    cases fits with
    | typeGap hp rooted => exact turned_scalar (n := p + 1) h hw hp rooted
    | gap hs | list hs => cases hs
  | wholeType h hw =>
    cases fits with
    | typeGap hp rooted => exact turned_scalar (n := 0) h hw hp rooted
    | initial hs | gap hs | list hs => cases hs
  | @openTuple t p os h =>
    cases fits with
    | @typeWord w name colon tfs g word p hp rooted =>
      refine .fits ⟨closed, .typing w name colon (⟨g, word, ⟨t, h⟩⟩ :: tfs) (.gap .start)⟩
        (.typeGap (congrArg Nat.succ hp) rooted) ?_
      simp [Draft.tokens, Current.tokens, TypePlace.tokens, nestTokens, TypeFrame.tokens,
        TypeGap.tokens]
    | initial hs | gap hs | list hs => cases hs
  | @closeInnerTuple t p os h =>
    cases fits with
    | typeList hp rooted => exact turned_tuple (n := p + 1) h hp rooted
    | gap hs | list hs => cases hs
  | closeOuterTuple h =>
    cases fits with
    | typeList hp rooted => exact turned_tuple (n := 0) h hp rooted
    | gap hs | list hs => cases hs
  | @typeComma t p os h =>
    cases fits with
    | @typeList w name colon f tfs l p' hp rooted =>
      refine .fits ⟨closed, .typing w name colon (f :: tfs) (.gap (.comma l ⟨t, h⟩))⟩
        (.typeGap (congrArg Nat.succ hp) rooted) ?_
      simp [Draft.tokens, Current.tokens, TypePlace.tokens, TypeGap.tokens]
    | gap hs | list hs => cases hs
  | @assign t p os h =>
    cases fits with
    | @target w target =>
      refine .fits ⟨closed, .expression (some ⟨w, target, ⟨t, h⟩⟩) [] (.gap .start)⟩
        (.gap rfl rfl trivial) ?_
      simp [Draft.tokens, Current.tokens, headTokens, LetHead.tokens, nestTokens, Place.tokens,
        Gap.tokens]
    | initial hs | gap hs | list hs => cases hs
  | @openGroup t p os h =>
    cases fits with
    | @gap head fs g _ _ _ hs hc rooted =>
      have hcounts : counts (⟨g, none, ⟨t, h⟩⟩ :: fs) = (p + 1, os) := by
        unfold counts
        rw [hc]
      exact turned_open hcounts rooted
    | initial hs | list hs => cases hs
  | @openCall t o p os h ho =>
    cases fits with
    | @gap head fs g _ _ _ hs hc rooted =>
      have hcounts : counts (⟨g, some ⟨t, h⟩, ⟨o, ho⟩⟩ :: fs) = (0, p :: os) := by
        unfold counts
        rw [hc]
      exact turned_open hcounts rooted
    | initial hs | list hs => cases hs
  | @value t s p os he h =>
    cases fits with
    | gap hs hc rooted => exact turned_fill (u := .value ⟨t, h⟩) hc rooted
    | initial hs | list hs => cases s <;> first | (cases he; done) | cases hs
    | word | target | typeGap | typeWord | typeList => cases he
  | @binary t op p os h ha hcomma =>
    cases fits with
    | @list head fs l _ _ _ hs hc rooted =>
      refine .fits ⟨closed, .expression head fs (.gap (.operator l ⟨t, op, h, ha⟩))⟩
        (.gap rfl hc rooted) ?_
      simp [Draft.tokens, Current.tokens, Place.tokens, Gap.tokens]
    | initial hs | gap hs => cases hs
  | @unary t p os h =>
    cases fits with
    | @gap head fs g _ _ _ hs hc rooted =>
      refine .fits ⟨closed, .expression head fs (.gap (.bang g ⟨t, h⟩))⟩ (.gap rfl hc rooted) ?_
      simp [Draft.tokens, Current.tokens, Place.tokens, Gap.tokens]
    | initial hs | list hs => cases hs
  | closeGroup h =>
    cases fits with
    | gap hs hc rooted => exact turned_close h (by rw [hc]; exact .group) rooted
    | list hs hc rooted => exact turned_close h (by rw [hc]; exact .group) rooted
  | closeCall h =>
    cases fits with
    | gap hs hc rooted => exact turned_close h (by rw [hc]; exact .call) rooted
    | list hs hc rooted => exact turned_close h (by rw [hc]; exact .call) rooted
  | comma h inside =>
    cases fits with
    | list hs hc rooted => exact turned_comma h inside hc rooted
    | initial hs | gap hs => cases hs
  | semicolon h =>
    cases fits with
    | list hs hc rooted => exact turned_semicolon h hc rooted
    | initial hs | gap hs => cases hs

/-- A parser refuses the parenthesis that comes amiss, for want of an operand. -/
theorem Amiss.push {d : Draft} {t : Token} (h : d.Amiss t) :
    ∃ r u, d.Lacks u ∧ d.parser.push t = (r, some (missing u)) := by
  cases h with
  | @closing closed head f fs g t hg ht =>
    obtain ⟨u, hu⟩ := exists_blamed (Gap.waits_of_ne_start hg none)
    obtain ⟨r, hr⟩ := pushClosing_missing t
      (ground_within (ground_base (headWord head) closed.trees)
        (nestScopes Frame.scope (headLead head) (f :: fs))) hu
    exact ⟨r, u, .gap hu, (push_closing ht _).trans hr⟩

/-- What the tokens of a lexer amount to: a draft that fits what the lexer knows, or they come amiss
at some point, before which there is a draft too. -/
inductive Followed (ts : List Token) (c : Control) : Prop where
  | fits (d : Draft) (fits : Fits d.current c) (tokens : d.tokens = ts)
  | amiss (d : Draft) (t : Token) (post : List Token) (amiss : d.Amiss t)
      (tokens : ts = d.tokens ++ t :: post)

/-- Whatever turns a lexer takes, it follows the grammar until its tokens come amiss. -/
theorem followed {c : Control} {ts : List Token} (h : Turns ⟨.statementHead, 0, []⟩ ts c) :
    Followed ts c := by
  induction h with
  | start =>
    exact .fits ⟨[], .expression none [] (.gap .start)⟩ (.initial rfl) rfl
  | @next ts us c c' before turn ih =>
    cases ih with
    | fits d fits tokens =>
      cases Draft.turn d.closed fits turn with
      | fits d' fits' tokens' => exact .fits d' fits' (by rw [tokens', ← tokens])
      | @amiss t amiss => exact .amiss d t [] amiss (by rw [← tokens])
    | amiss d t post amiss tokens =>
      exact .amiss d t (post ++ us) amiss (by rw [tokens, List.append_assoc]; rfl)

end Draft

/-- A lexer never reads a comma as an operator. -/
theorem Turns.uncomma {c d : Control} {ts : List Token} (h : Turns c ts d) : Uncomma ts := by
  intro t ht he
  have hs := h.isSpoken t ht
  rw [he] at hs
  cases hs

end ExprYard
