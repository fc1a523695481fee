import ExprYard.Proofs.Grammar.Precedence
import ExprYard.Proofs.Grammar.Verdict

/-!
# Which token is said to lack an operand

Where an operand is awaited and does not come, a parser folds what waits for it, from the latest
marker down, and names the token whose operands run out. That is seldom the token that the operand
was to stand behind: the latest operator takes the two operands before it, the one below it takes
that and the one before, and so on, until a single operand is left for the lowest. So the token named
is the place to split the row that has been read since the innermost parenthesis (`Loosest`), and the
last token only where nothing but prefixes has been read there (`Blames`).

`innermost` finds that row among the tokens themselves: it keeps the operators of each open group,
as `unclosed` keeps its parenthesis.
-/

namespace ExprYard

open ExprYard.Parser

/-! ## Rows among tokens -/

/-- A token as what joins the operands on its two sides, if it does. -/
def Token.link? (t : Token) : Option Link :=
  match h : t.kind.binding with
  | none => none
  | some binding => if ha : binding.arity = .binary then some ⟨t, binding, h, ha⟩ else none

/-- The operators of the open rows behind a token, the innermost row first, when those before it are
given. A semicolon ends the row that it is in. -/
def rowsBehind : List (List Link) → Token → List (List Link)
  | [], _ => []
  | row :: rows, t =>
    if t.kind = .openParen then [] :: row :: rows
    else if t.kind = .closeParen then rows
    else if t.kind = .keyword .semicolon then [] :: rows
    else (row ++ t.link?.toList) :: rows

/-- The operators of the innermost row behind tokens: those since the latest parenthesis that is
still open, or since the statement began, without those of groups that have been closed. -/
def innermost (ts : List Token) : List Link :=
  (ts.foldl rowsBehind [[]]).headD []

/-- The token that is named when an operand is awaited behind tokens and does not come. -/
inductive Blames (ts : List Token) : Token → Prop where
  /-- The operator at which the innermost row would be split. -/
  | operator {before after : List Link} {b : Link} (row : innermost ts = before ++ b :: after)
      (place : Loosest b before after) : Blames ts b.token
  /-- A prefix, which is the last token, where there is no operator. -/
  | bang {earlier : List Token} {t : Token} (row : innermost ts = []) (last : ts = earlier ++ [t]) :
      Blames ts t

section

variable {t : Token} {row : List Link} {rows : List (List Link)}

theorem Link.link?_token (b : Link) : b.token.link? = some b := by
  obtain ⟨t, binding, bound, arity⟩ := b
  unfold Token.link?
  split
  · rename_i h
    rw [bound] at h
    cases h
  · rename_i binding' h
    rw [bound] at h
    cases h
    rw [dif_pos arity]

/-- A token joins nothing that takes no operands, or only one. -/
theorem Token.link?_eq_none (h : ∀ binding, t.kind.binding = some binding → binding.arity = .unary) :
    t.link? = none := by
  unfold Token.link?
  split
  · rfl
  · rename_i binding hb
    rw [dif_neg (by rw [h binding hb]; decide)]

theorem rowsBehind_open (h : t.kind = .openParen) :
    rowsBehind (row :: rows) t = [] :: row :: rows :=
  if_pos h

theorem rowsBehind_close (h : t.kind = .closeParen) : rowsBehind (row :: rows) t = rows := by
  rw [rowsBehind, if_neg (by rw [h]; decide), if_pos h]

theorem rowsBehind_semicolon (h : t.kind = .keyword .semicolon) :
    rowsBehind (row :: rows) t = [] :: rows := by
  rw [rowsBehind, if_neg (by rw [h]; decide), if_neg (by rw [h]; decide), if_pos h]

/-- A token that is neither a parenthesis nor a semicolon is for the innermost row, if it joins
anything. -/
theorem rowsBehind_other (hopen : t.kind ≠ .openParen) (hclose : t.kind ≠ .closeParen)
    (hsemicolon : t.kind ≠ .keyword .semicolon) :
    rowsBehind (row :: rows) t = (row ++ t.link?.toList) :: rows := by
  rw [rowsBehind, if_neg hopen, if_neg hclose, if_neg hsemicolon]

theorem rowsBehind_link (b : Link) : rowsBehind (row :: rows) b.token = (row ++ [b]) :: rows := by
  have hne : ∀ kind : Kind, kind.binding = none → b.token.kind ≠ kind := by
    rintro kind hnone rfl
    have hbound := b.bound
    rw [hnone] at hbound
    cases hbound
  rw [rowsBehind_other (hne _ rfl) (hne _ rfl) (hne _ rfl), b.link?_token]
  rfl

/-- A token that joins nothing leaves the rows as they are. -/
theorem rowsBehind_plain (hopen : t.kind ≠ .openParen) (hclose : t.kind ≠ .closeParen)
    (hsemicolon : t.kind ≠ .keyword .semicolon)
    (h : ∀ binding, t.kind.binding = some binding → binding.arity = .unary) :
    rowsBehind (row :: rows) t = row :: rows := by
  rw [rowsBehind_other hopen hclose hsemicolon, Token.link?_eq_none h]
  show (row ++ []) :: rows = _
  rw [List.append_nil]

/-- A token of a kind that is no parenthesis, no semicolon and no operator between operands. -/
theorem Token.Is.rowsBehind {kind : Kind} (t : Token.Is kind)
    (h : kind ≠ .openParen ∧ kind ≠ .closeParen ∧ kind ≠ .keyword .semicolon ∧
      ∀ binding, kind.binding = some binding → binding.arity = .unary) :
    ExprYard.rowsBehind (row :: rows) t.1 = row :: rows := by
  obtain ⟨hopen, hclose, hsemicolon, hunary⟩ := h
  exact rowsBehind_plain (t.ne hopen) (t.ne hclose) (t.ne hsemicolon) fun binding hb =>
    hunary binding (t.2 ▸ hb)

end

/-! ## Rows of derivations -/

/-- What stands for a value is no operator. -/
theorem Kind.IsValue.binding_eq_none {kind : Kind} (h : kind.IsValue) : kind.binding = none := by
  rcases h with h | rfl
  · cases kind <;> first | rfl | cases h
  · rfl

mutual

/-- What stands in an operand is in rows of its own, which are over. -/
theorem Unary.rows : ∀ (u : Unary) (row : List Link) (rows : List (List Link)),
    u.tokens.foldl rowsBehind (row :: rows) = row :: rows
  | .bang b u, row, rows => by
    have hb : rowsBehind (row :: rows) b.1 = row :: rows :=
      b.rowsBehind (by decide)
    rw [Unary.tokens, List.foldl_cons, hb]
    exact u.rows row rows
  | .value t, row, rows => by
    have hplain : ∀ binding, t.1.kind.binding = some binding → binding.arity = .unary := by
      intro binding hb
      rw [t.2.binding_eq_none] at hb
      cases hb
    exact rowsBehind_plain (t.2.ne (by decide)) (t.2.ne (by decide)) (t.2.ne (by decide)) hplain
  | .group opening c closing, row, rows => by
    obtain ⟨inner, hinner⟩ := c.rows (row :: rows)
    rw [Unary.tokens, List.foldl_cons, rowsBehind_open opening.2, List.foldl_append, hinner]
    exact rowsBehind_close closing.2
  | .call f opening c closing, row, rows => by
    obtain ⟨inner, hinner⟩ := c.rows (row :: rows)
    have hf : rowsBehind (row :: rows) f.1 = row :: rows :=
      f.rowsBehind (by decide)
    rw [Unary.tokens, List.foldl_cons, hf, List.foldl_cons, rowsBehind_open opening.2,
      List.foldl_append, hinner]
    exact rowsBehind_close closing.2

/-- Between parentheses there is one row more. -/
theorem Contents.rows : ∀ (c : Contents) (rows : List (List Link)),
    ∃ inner, c.tokens.foldl rowsBehind ([] :: rows) = inner :: rows
  | .empty, _ => ⟨[], rfl⟩
  | .list l, rows => ⟨_, l.rows [] rows⟩

/-- A list adds its operators to the row that it is in, and the commas with them. -/
theorem Exprs.rows : ∀ (l : Exprs) (row : List Link) (rows : List (List Link)),
    l.tokens.foldl rowsBehind (row :: rows) = (row ++ l.operands.links) :: rows
  | .one e, row, rows => e.rows row rows
  | .more l comma e, row, rows => by
    have hcomma : rowsBehind ((row ++ l.operands.links) :: rows) comma.1
        = (row ++ l.operands.links ++ [commaLink comma]) :: rows := rowsBehind_link (commaLink comma)
    rw [Exprs.tokens, List.foldl_append, l.rows, List.foldl_cons, hcomma, e.rows, Exprs.operands,
      Infix.links_join]
    simp

/-- An expression adds its operators to the row that it is in. -/
theorem Expr.rows : ∀ (e : Expr) (row : List Link) (rows : List (List Link)),
    e.tokens.foldl rowsBehind (row :: rows) = (row ++ e.operands.links) :: rows
  | .unary u, row, rows => by
    rw [Expr.tokens, u.rows, Expr.operands, Infix.links_single, List.append_nil]
  | .binary e op u, row, rows => by
    have hop : rowsBehind ((row ++ e.operands.links) :: rows) op.token
        = (row ++ e.operands.links ++ [op.link]) :: rows := rowsBehind_link op.link
    rw [Expr.tokens, List.foldl_append, e.rows, List.foldl_cons, hop, u.rows, Expr.operands,
      Infix.links_join]
    simp

end

mutual

theorem Ty.rows : ∀ (t : Ty) (row : List Link) (rows : List (List Link)),
    t.tokens.foldl rowsBehind (row :: rows) = row :: rows
  | .scalar t, row, rows => by
    obtain ⟨t, word, hk, hw⟩ := t
    have hplain : ∀ binding, t.kind.binding = some binding → binding.arity = .unary := by
      intro binding hb
      rw [hk] at hb
      cases hb
    refine rowsBehind_plain ?_ ?_ ?_ hplain <;>
    · show t.kind ≠ _
      rw [hk]
      exact nofun
  | .tuple word opening l closing, row, rows => by
    have hword : rowsBehind (row :: rows) word.1 = row :: rows :=
      word.rowsBehind (by decide)
    rw [Ty.tokens, List.foldl_cons, hword, List.foldl_cons, rowsBehind_open opening.2,
      List.foldl_append, l.rows]
    exact rowsBehind_close closing.2

theorem Tys.rows : ∀ (l : Tys) (row : List Link) (rows : List (List Link)),
    l.tokens.foldl rowsBehind (row :: rows) = (row ++ l.operands.links) :: rows
  | .one t, row, rows => by
    rw [Tys.tokens, t.rows, Tys.operands, Infix.links_single, List.append_nil]
  | .more l comma t, row, rows => by
    have hcomma : rowsBehind ((row ++ l.operands.links) :: rows) comma.1
        = (row ++ l.operands.links ++ [commaLink comma]) :: rows := rowsBehind_link (commaLink comma)
    rw [Tys.tokens, List.foldl_append, l.rows, List.foldl_cons, hcomma, t.rows, Tys.operands,
      Infix.links_join]
    simp

end

theorem Target.rows (target : Target) (row : List Link) (rows : List (List Link)) :
    target.tokens.foldl rowsBehind (row :: rows) = (row ++ target.operands.links) :: rows := by
  obtain ⟨name, type⟩ := target
  have hname : rowsBehind (row :: rows) name.1 = row :: rows :=
    name.rowsBehind (by decide)
  cases type with
  | none =>
    show rowsBehind (row :: rows) name.1 = (row ++ []) :: rows
    rw [hname, List.append_nil]
  | some typed =>
    obtain ⟨colon, t⟩ := typed
    have hcolon : rowsBehind (row :: rows) colon.1 = (row ++ [colonLink colon]) :: rows :=
      rowsBehind_link (colonLink colon)
    show (colon.1 :: t.tokens).foldl rowsBehind (rowsBehind (row :: rows) name.1) = _
    rw [hname, List.foldl_cons, hcolon, t.rows]
    rfl

namespace Lead

/-- The operators of what has been read of a row. -/
def links (lead : Lead) : List Link :=
  lead.elim [] fun x => x.1.links ++ [x.2]

theorem links_row (lead : Lead) (i : Infix Tree) : (lead.row i).links = lead.links ++ i.links := by
  cases lead with
  | none => rfl
  | some x =>
    show (x.1.join x.2 i).links = x.1.links ++ [x.2] ++ i.links
    rw [Infix.links_join]
    simp

end Lead

theorem rows_headTokens (head : Option LetHead) (rows : List (List Link)) :
    (headTokens head).foldl rowsBehind ([] :: rows) = (headLead head).links :: rows := by
  cases head with
  | none => rfl
  | some head =>
    have hword : rowsBehind ([] :: rows) head.word.1 = [] :: rows :=
      head.word.rowsBehind (by decide)
    have hassign : rowsBehind (head.target.operands.links :: rows) head.assign.1
        = (head.target.operands.links ++ [assignLink head.assign]) :: rows :=
      rowsBehind_link (assignLink head.assign)
    show (head.target.tokens ++ [head.assign.1]).foldl rowsBehind
      (rowsBehind ([] :: rows) head.word.1) = _
    rw [hword, List.foldl_append, head.target.rows, List.nil_append]
    exact hassign

/-- Statements that have been ended leave no row. -/
theorem Closed.rows (closed : Closed) (rows : List (List Link)) :
    (Closed.tokens closed).foldl rowsBehind ([] :: rows) = [] :: rows := by
  induction closed with
  | nil => rfl
  | cons x closed ih =>
    obtain ⟨s, semicolon⟩ := x
    obtain ⟨head, e, rfl⟩ := s.exists_of
    have htokens : Closed.tokens ((Stmt.of head e, semicolon) :: closed)
        = headTokens head ++ (e.tokens ++ semicolon.1 :: Closed.tokens closed) := by
      simp [Closed.tokens, Stmt.tokens_of]
    rw [htokens, List.foldl_append, rows_headTokens, List.foldl_append, e.rows, List.foldl_cons,
      rowsBehind_semicolon semicolon.2, ih]

namespace Gap

/-- What has been read of the row in which an operand is awaited, up to the operator before it. -/
def lead (lead : Lead) : Gap → Lead
  | start => lead
  | comma l c => some (lead.row l.operands, commaLink c)
  | operator l op => some (lead.row l.operands, op.link)
  | bang g _ => g.lead lead

theorem stack_lead (lead : Lead) (g : Gap) : (g.lead lead).stack = g.stack lead := by
  induction g with
  | start | comma | operator => rfl
  | bang g b ih => exact ih

theorem rows (g : Gap) (lead : Lead) (outer : List (List Link)) :
    g.tokens.foldl rowsBehind (lead.links :: outer) = (g.lead lead).links :: outer := by
  induction g with
  | start => rfl
  | comma l c =>
    have hcomma : rowsBehind ((lead.links ++ l.operands.links) :: outer) c.1
        = (lead.links ++ l.operands.links ++ [commaLink c]) :: outer := rowsBehind_link (commaLink c)
    rw [tokens, List.foldl_append, l.rows]
    refine hcomma.trans ?_
    rw [← lead.links_row]
    rfl
  | operator l op =>
    have hop : rowsBehind ((lead.links ++ l.operands.links) :: outer) op.token
        = (lead.links ++ l.operands.links ++ [op.link]) :: outer := rowsBehind_link op.link
    rw [tokens, List.foldl_append, l.rows]
    refine hop.trans ?_
    rw [← lead.links_row]
    rfl
  | bang g b ih =>
    rw [tokens, List.foldl_append, ih]
    exact b.rowsBehind (by decide)

end Gap

/-- Inside of a parenthesis there is a row with nothing in it yet. -/
theorem Frame.rows (f : Frame) (lead : Lead) (rows : List (List Link)) :
    f.tokens.foldl rowsBehind (lead.links :: rows)
      = [] :: (f.gap.lead lead).links :: rows := by
  unfold Frame.tokens
  rw [List.foldl_append, f.gap.rows]
  unfold Frame.bracket
  cases f.call with
  | none => exact rowsBehind_open f.opening.2
  | some name =>
    show rowsBehind (rowsBehind _ name.1) f.opening.1 = _
    rw [name.rowsBehind (by decide), rowsBehind_open f.opening.2]

theorem rows_nest (fs : List Frame) (lead : Lead) :
    ∃ outer, (nestTokens Frame.tokens fs).foldl rowsBehind [lead.links]
      = (nestLead lead fs).links :: outer := by
  induction fs with
  | nil => exact ⟨[], rfl⟩
  | cons f fs ih =>
    obtain ⟨outer, houter⟩ := ih
    refine ⟨(f.gap.lead (nestLead lead fs)).links :: outer, ?_⟩
    unfold nestTokens
    rw [List.foldl_append, houter]
    exact f.rows (nestLead lead fs) outer

/-- The innermost row of a draft is that of the list in which an operand is awaited. -/
theorem Draft.innermost_tokens (closed : Closed) (head : Option LetHead) (fs : List Frame)
    (g : Gap) : innermost (Draft.mk closed (.expression head fs (.gap g))).tokens
      = (g.lead (nestLead (headLead head) fs)).links := by
  obtain ⟨outer, houter⟩ := rows_nest fs (headLead head)
  unfold innermost Draft.tokens Current.tokens
  rw [List.foldl_append, Closed.rows, List.foldl_append, rows_headTokens, List.foldl_append, houter]
  show (g.tokens.foldl rowsBehind _).headD [] = _
  rw [g.rows]
  rfl

/-! ## What is named -/

/-- The lowest operator that waits behind what has been read of a row is the place to split it. -/
theorem Lead.place_of_stack {lead : Lead} {x : Tree} {b : Link} {st : Stack}
    (h : lead.stack = (x, b) :: st) :
    ∃ before after, lead.links = before ++ Stack.lowest b st :: after ∧
      Loosest (Stack.lowest b st) before after := by
  cases lead with
  | none => cases h
  | some y =>
    obtain ⟨i, c⟩ := y
    -- The row is not over, so its stack is that of the row with some operand at the end.
    have hstack : (i.join c (.single i.first)).stack = (x, b) :: st :=
      (i.stack_join_single c i.first).trans h
    obtain ⟨before, after, hlinks, hplace⟩ := Infix.lowest_of_stack hstack
    rw [Infix.links_join] at hlinks
    exact ⟨before, after, hlinks, loosest_iff.mpr hplace⟩

theorem Lead.links_of_stack_nil {lead : Lead} (h : lead.stack = []) : lead.links = [] := by
  cases lead with
  | none => rfl
  | some y => cases h

/-- One token is named. -/
theorem Blames.unique {ts : List Token} {t u : Token} (h : Blames ts t) (g : Blames ts u) :
    t = u := by
  -- A row is split at one place, which is its root, whatever its operands are.
  have hroot : ∀ {before after : List Link} {b : Link}, Loosest b before after →
      (Infix.root ((before ++ b :: after).map fun c => (c, ()))).map (·.2.1.1) = some b := by
    intro before after b place
    obtain ⟨hbefore, hafter⟩ := loosest_iff.mp place
    rw [List.map_append, List.map_cons, Infix.root_append (List.forall_mem_map.mpr hbefore)
      (List.forall_mem_map.mpr hafter)]
    rfl
  cases h with
  | operator row place =>
    cases g with
    | operator row' place' =>
      have hb := hroot place
      rw [← row, row', hroot place'] at hb
      cases hb
      rfl
    | bang row' =>
      rw [row'] at row
      cases List.append_ne_nil_of_right_ne_nil _ (List.cons_ne_nil _ _) row.symm
  | bang row last =>
    cases g with
    | operator row' =>
      rw [row] at row'
      cases List.append_ne_nil_of_right_ne_nil _ (List.cons_ne_nil _ _) row'.symm
    | bang _ last' =>
      rw [last] at last'
      exact (List.cons.inj (List.append_inj_right' last' rfl)).1

/-- The token that a parser says lacks an operand can be read off the tokens. -/
theorem Draft.Lacks.blames {d : Draft} {t : Token} (h : d.Lacks t) : Blames d.tokens t := by
  cases h with
  | @gap closed head fs g t blames =>
    have hrow := innermost_tokens closed head fs g
    rw [← g.stack_lead] at blames
    cases hst : (g.lead (nestLead (headLead head) fs)).stack with
    | nil =>
      rw [hst] at blames
      rw [Lead.links_of_stack_nil hst] at hrow
      cases g with
      | start | comma | operator => cases blames
      | bang g b =>
        cases blames
        have htokens : (Draft.mk closed (.expression head fs (.gap (.bang g b)))).tokens
            = (closed.tokens ++ (headTokens head ++ (nestTokens Frame.tokens fs ++ g.tokens)))
              ++ [b.1] := by
          simp [Draft.tokens, Current.tokens, Place.tokens, Gap.tokens]
        exact .bang hrow htokens
    | cons y st =>
      obtain ⟨x, b⟩ := y
      rw [hst] at blames
      cases blames
      obtain ⟨before, after, hlinks, hplace⟩ := Lead.place_of_stack hst
      exact .operator (hrow.trans hlinks) hplace

open Lexer

/-- If a source of which the lexer has nothing to report lacks an operand, then up to the first
place where one is lacking its tokens end in an operator or a comma, and a parenthesis closes there
or the tokens are over, or they end in the assignment sign and are over. What is named is the
operator at which the innermost row up to there would be split, and that last token only if it is
the place to split, or a prefix with no operator before it in its row. -/
theorem blamed_of_missing (source : List Char) (file : String)
    (clean : ∀ t ∈ (ofRunes source file).tokens.1, t.kind ≠ .error) (text : String)
    (position : Position)
    (h : (parseLexer (ofRunes source file)).1.2 = .error ⟨.missingOperand text, position⟩) :
    ∃ before last after named,
      (ofRunes source file).tokens.1 = before ++ last :: after ∧
      (last.kind.isJoint = true ∧ (∀ t ∈ after.head?, t.kind = .closeParen) ∨
        last.kind = .keyword .assign ∧ after = []) ∧
      ¬ ClosesEarly (before ++ [last]) ∧
      (∀ t, Blames (before ++ [last]) t ↔ t = named) ∧
      named.text = text ∧ named.position = position := by
  have hjudged := judged_of_clean clean
  rw [h] at hjudged
  generalize (ofRunes source file).tokens.1 = ts at hjudged ⊢
  have hunique : ∀ {us : List Token} {t : Token}, Blames us t → ∀ u, Blames us u ↔ u = t := by
    intro us t ht u
    exact ⟨fun hu => hu.unique ht, fun hu => hu ▸ ht⟩
  cases hjudged with
  | @ends d t lacks smooth =>
    have hblames := lacks.blames
    obtain ⟨before, last, htokens, hlast⟩ := lacks.tokens
    rw [htokens] at smooth hblames ⊢
    refine ⟨before, last, [], t, rfl, ?_, smooth, hunique hblames, rfl, rfl⟩
    exact hlast.imp (fun hjoint => ⟨hjoint, nofun⟩) fun hassign => ⟨hassign, rfl⟩
  | @closes d t closing post lacks smooth amiss =>
    have hblames := lacks.blames
    obtain ⟨hclosing, before, last, htokens, hlast⟩ := amiss.tokens
    rw [htokens] at smooth hblames ⊢
    refine ⟨before, last, closing :: post, t, by simp, .inl ⟨hlast, ?_⟩, smooth,
      hunique hblames, rfl, rfl⟩
    rintro u hu
    cases hu
    exact hclosing

/-- In `1 + 2 *` it is the operator with both operands that is named. -/
theorem blamed_of_missing_product :
    ∃ before last after named,
      (ofRunes ['1', ' ', '+', ' ', '2', ' ', '*'] "shell").tokens.1 = before ++ last :: after ∧
      (last.kind.isJoint = true ∧ (∀ t ∈ after.head?, t.kind = .closeParen) ∨
        last.kind = .keyword .assign ∧ after = []) ∧
      ¬ ClosesEarly (before ++ [last]) ∧
      (∀ t, Blames (before ++ [last]) t ↔ t = named) ∧
      named.text = "+" ∧ named.position = ⟨2, "shell"⟩ :=
  blamed_of_missing ['1', ' ', '+', ' ', '2', ' ', '*'] "shell" (by decide +kernel) "+" ⟨2, "shell"⟩
    (by decide +kernel)

/-- In `1 + !` the operator is named, behind which there is more, and not the prefix at the end. -/
theorem bang_not_blamed :
    (∀ t ∈ (ofRunes ['1', ' ', '+', ' ', '!'] "shell").tokens.1, t.kind ≠ .error) ∧
      (parseLexer (ofRunes ['1', ' ', '+', ' ', '!'] "shell")).1.2
        = .error ⟨.missingOperand "+", ⟨2, "shell"⟩⟩ ∧
      ∀ i (h : i < (ofRunes ['1', ' ', '+', ' ', '!'] "shell").tokens.1.length),
        (ofRunes ['1', ' ', '+', ' ', '!'] "shell").tokens.1[i].position = ⟨2, "shell"⟩ →
          ((ofRunes ['1', ' ', '+', ' ', '!'] "shell").tokens.1[i + 1]?).any
            (·.kind ≠ .closeParen) := by
  decide +kernel

end ExprYard
