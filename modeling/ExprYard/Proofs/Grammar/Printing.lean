import ExprYard.Proofs.Grammar.Lists
import ExprYard.Proofs.Lexer.Phrasing
import ExprYard.Proofs.Lexer.Printing

/-!
# Programs that are printed and read again

The tokens of every program can be printed and read back: in whatever group, call, list, type or
statement a token stands, the lexer is in the stance in which that token is read as what it is. The
proof follows the derivation, one case for each of its constructors, with the open parentheses given
by what is around it (`Expr.tells`, `Ty.tells`, `Stmt.tells`).

The texts must be texts of their kinds. There are two more conditions, on what the grammar does not
see: a statement does not begin with a name that is spelled `let`, and a number does not begin like
a name. Both are needed, for a lexer takes the one for the word `let` and the other for a name.
-/

namespace ExprYard

/-- A token that is read back where its kind is expected. -/
structure Token.Printable (t : Token) : Prop where
  spelt : t.Spelt
  unlettered : t.Unlettered
  uncomma : t.kind ≠ .operator .comma

/-- Tokens that are read back where their kinds are expected. -/
def Printable (ts : List Token) : Prop :=
  ∀ t ∈ ts, t.Printable

theorem printable_cons {t : Token} {ts : List Token} :
    Printable (t :: ts) ↔ t.Printable ∧ Printable ts :=
  List.forall_mem_cons

theorem printable_append {ts us : List Token} :
    Printable (ts ++ us) ↔ Printable ts ∧ Printable us :=
  List.forall_mem_append

theorem unopened_cons {t : Token} {ts : List Token} (h : t.Printable)
    (hk : t.kind ≠ .openParen) : Unopened (t :: ts) := by
  intro u hu
  cases hu
  exact ⟨h.spelt, hk⟩

theorem unopened_nil : Unopened [] := by
  intro u hu
  cases hu

/-- A token that is no name is read where the automaton allows it. -/
theorem Token.Printable.tells {s next : Stance} {kind : Kind} {t : Token} {us : List Token}
    (h : t.Printable) (hk : t.kind = kind) (hname : kind ≠ .identifier ∧ kind ≠ .function)
    (after : s.after kind = some next) : Tells s [t] next us :=
  tells_word hk h.spelt h.unlettered hname after

/-! ## Expressions -/

/-- A token that stands for a value is read as one. -/
theorem tells_value {t : Token} {p : Nat} {os : List Nat} {us : List Token}
    (hk : t.kind.IsValue) (h : t.Printable) (hus : Unopened us) :
    Tells ⟨.operand, p, os⟩ [t] ⟨.afterOperand, p, os⟩ us := by
  rcases hk with hk | hk
  · refine tells_word rfl h.spelt h.unlettered ⟨fun hn => ?_, fun hn => ?_⟩ ?_
    · rw [hn] at hk
      cases hk
    · rw [hn] at hk
      cases hk
    · cases hkind : t.kind <;> rw [hkind] at hk <;> first | rfl | cases hk
  · exact tells_identifier hk h.spelt hus rfl nofun

/-- Parentheses are open. -/
def Inside (p : Nat) (os : List Nat) : Prop :=
  p ≠ 0 ∨ os ≠ []

mutual

/-- An operand is read back. -/
theorem Unary.tells : ∀ (u : Unary), Printable u.tokens → ∀ {us : List Token}, Unopened us →
    ∀ (p : Nat) (os : List Nat), Tells ⟨.operand, p, os⟩ u.tokens ⟨.afterOperand, p, os⟩ us
  | .bang b u, h, us, hus, p, os => by
    obtain ⟨hb, hu⟩ := printable_cons.mp h
    exact (hb.tells b.2 ⟨nofun, nofun⟩ rfl).cons (u.tells hu hus p os)
  | .value t, h, us, hus, p, os => tells_value t.2 (h t.1 List.mem_cons_self) hus
  | .group opening c closing, h, us, hus, p, os => by
    obtain ⟨hopening, hc⟩ := printable_cons.mp h
    exact (hopening.tells opening.2 ⟨nofun, nofun⟩ rfl).cons
      (c.tells closing hc (.inl (Nat.succ_ne_zero p)) fun mode => rfl)
  | .call f opening c closing, h, us, hus, p, os => by
    obtain ⟨hf, hrest⟩ := printable_cons.mp h
    obtain ⟨hopening, hc⟩ := printable_cons.mp hrest
    refine Tells.append (tells_call f.2 hf.spelt opening.2 hopening.spelt rfl ?_)
      (c.tells closing hc (.inr (List.cons_ne_nil p os)) fun mode => rfl)
    exact nofun

/-- What stands between parentheses is read back, with the closing one. -/
theorem Contents.tells : ∀ (c : Contents) (closing : Token.Is .closeParen),
    Printable (c.tokens ++ [closing.1]) → ∀ {us : List Token} {p : Nat} {os : List Nat}
      {next : Stance}, Inside p os → (∀ mode, (⟨mode, p, os⟩ : Stance).close = some next) →
      Tells ⟨.operand, p, os⟩ (c.tokens ++ [closing.1]) next us
  | .empty, closing, h, us, p, os, next, hn, hc =>
    (h closing.1 List.mem_cons_self).tells closing.2 ⟨nofun, nofun⟩ (hc .operand)
  | .list l, closing, h, us, p, os, next, hn, hc => by
    obtain ⟨hl, hclosing⟩ := printable_append.mp h
    have hclosing := hclosing closing.1 List.mem_cons_self
    exact (l.tells hl (unopened_cons hclosing (closing.ne (by decide))) hn).append
      (hclosing.tells closing.2 ⟨nofun, nofun⟩ (hc .afterOperand))

/-- A list is read back wherever parentheses are open. -/
theorem Exprs.tells : ∀ (l : Exprs), Printable l.tokens → ∀ {us : List Token}, Unopened us →
    ∀ {p : Nat} {os : List Nat}, Inside p os →
      Tells ⟨.operand, p, os⟩ l.tokens ⟨.afterOperand, p, os⟩ us
  | .one e, h, us, hus, p, os, hn => e.tells h hus p os
  | .more l comma e, h, us, hus, p, os, hn => by
    obtain ⟨hl, hrest⟩ := printable_append.mp h
    obtain ⟨hcomma, he⟩ := printable_cons.mp hrest
    have hafter : (⟨.afterOperand, p, os⟩ : Stance).after (.keyword .comma)
        = some ⟨.operand, p, os⟩ := by
      refine if_neg ?_
      rcases hn with hn | hn <;> simp [Stance.isLevel, hn]
    exact (l.tells hl (unopened_cons hcomma (comma.ne (by decide))) hn).append
      ((hcomma.tells comma.2 ⟨nofun, nofun⟩ hafter).cons (e.tells he hus p os))

/-- An expression is read back. -/
theorem Expr.tells : ∀ (e : Expr), Printable e.tokens → ∀ {us : List Token}, Unopened us →
    ∀ (p : Nat) (os : List Nat), Tells ⟨.operand, p, os⟩ e.tokens ⟨.afterOperand, p, os⟩ us
  | .unary u, h, us, hus, p, os => u.tells h hus p os
  | .binary e op u, h, us, hus, p, os => by
    obtain ⟨he, hrest⟩ := printable_append.mp h
    obtain ⟨hop, hu⟩ := printable_cons.mp hrest
    have hnext : op.token.kind ≠ .openParen := by
      rw [op.kind]
      exact fun hk => by cases hk
    have hcomma : op.op ≠ .comma := fun hc => hop.uncomma (by rw [op.kind, hc])
    have hafter : (⟨.afterOperand, p, os⟩ : Stance).after (.operator op.op)
        = some ⟨.operand, p, os⟩ := if_pos ⟨op.arity, hcomma⟩
    exact (e.tells he (unopened_cons hop hnext) p os).append
      ((hop.tells op.kind ⟨nofun, nofun⟩ hafter).cons (u.tells hu hus p os))

end

/-! ## Types -/

/-- What a lexer expects behind a type. -/
def behindElement (p : Nat) : Mode :=
  if 0 < p then .tupleTypeNext else .letAssign

mutual

/-- A type is read back. -/
theorem Ty.tells : ∀ (t : Ty), Printable t.tokens → ∀ {us : List Token} (p : Nat) (os : List Nat),
    Tells ⟨.letType, p, os⟩ t.tokens ⟨behindElement p, p, os⟩ us
  | .scalar t, h, us, p, os => by
    obtain ⟨word, hk, hw⟩ := t.2
    have hafter : (⟨.letType, p, os⟩ : Stance).after (.type word)
        = some ⟨behindElement p, p, os⟩ :=
      congrArg (fun mode => some (⟨mode, p, os⟩ : Stance)) (if_neg hw)
    exact (h t.1 List.mem_cons_self).tells hk ⟨nofun, nofun⟩ hafter
  | .tuple word opening l closing, h, us, p, os => by
    obtain ⟨hword, hrest⟩ := printable_cons.mp h
    obtain ⟨hopening, hrest⟩ := printable_cons.mp hrest
    obtain ⟨hl, hclosing⟩ := printable_append.mp hrest
    have hclosing := hclosing closing.1 List.mem_cons_self
    exact (hword.tells word.2 ⟨nofun, nofun⟩ rfl).cons
      ((hopening.tells opening.2 ⟨nofun, nofun⟩ rfl).cons
        ((l.tells hl p os).append (hclosing.tells closing.2 ⟨nofun, nofun⟩ rfl)))

/-- Types with commas between them are read back inside of a tuple. -/
theorem Tys.tells : ∀ (l : Tys), Printable l.tokens → ∀ {us : List Token} (p : Nat)
    (os : List Nat), Tells ⟨.letType, p + 1, os⟩ l.tokens ⟨.tupleTypeNext, p + 1, os⟩ us
  | .one t, h, us, p, os => t.tells h (p + 1) os
  | .more l comma t, h, us, p, os => by
    obtain ⟨hl, hrest⟩ := printable_append.mp h
    obtain ⟨hcomma, ht⟩ := printable_cons.mp hrest
    exact (l.tells hl p os).append
      ((hcomma.tells comma.2 ⟨nofun, nofun⟩ rfl).cons (t.tells ht (p + 1) os))

end

/-! ## Statements -/

/-- A token that an expression may begin with. -/
def Kind.OpensExpr (kind : Kind) : Prop :=
  kind.IsValue ∨ kind = .openParen ∨ kind = .function ∨ kind = .operator .not

theorem Unary.exists_first (u : Unary) :
    ∃ t ts, u.tokens = t :: ts ∧ t.kind.OpensExpr := by
  cases u with
  | bang b u => exact ⟨b.1, _, rfl, .inr (.inr (.inr b.2))⟩
  | value t => exact ⟨t.1, _, rfl, .inl t.2⟩
  | group opening c closing => exact ⟨opening.1, _, rfl, .inr (.inl opening.2)⟩
  | call f opening c closing => exact ⟨f.1, _, rfl, .inr (.inr (.inl f.2))⟩

theorem Expr.exists_first (e : Expr) : ∃ t ts, e.tokens = t :: ts ∧ t.kind.OpensExpr := by
  cases e with
  | unary u => exact u.exists_first
  | binary e op u =>
    obtain ⟨t, ts, he, hk⟩ := e.exists_first
    exact ⟨t, ts ++ op.token :: u.tokens, congrArg (· ++ op.token :: u.tokens) he, hk⟩

/-- A token is a name that is spelled like the word `let`. -/
def Token.IsLetName (t : Token) : Prop :=
  (t.kind = .identifier ∨ t.kind = .function) ∧ t.text = "let"

/-- Literals are no names. -/
theorem Kind.isWord_of_isLiteral {kind : Kind} (h : kind.isLiteral = true) :
    kind.isWord = false := by
  cases kind <;> first | rfl | cases h

/-- What an expression begins with is not taken for the word `let`, unless it is a name that is
spelled so. -/
theorem word_ne_let {t : Token} {b : Spot} {us : List Token} (ht : t.Spelt)
    (hk : t.kind.OpensExpr) (hlet : ¬ t.IsLetName) (h : b.rest = t.text.toList ++ trail us) :
    b.word ≠ Keyword.letWord.spelling := by
  intro hword
  by_cases hname : t.kind = .identifier ∨ t.kind = .function
  · have hspelt : Lexer.IsName t.text.toList := by
      rcases hname with hk | hk <;> exact ht.of_kind hk
    have hends : Stops Rune.continuesName (trail us) := (spaced_trail us).stops (by decide +kernel)
    rw [Spot.word, Spot.run_of_rest h hspelt.all hends] at hword
    refine hlet ⟨hname, ?_⟩
    rw [← String.ofList_toList (s := t.text), hword]
    decide
  · -- Nothing else that an expression begins with has an `l` first.
    have hahead := Spot.ahead_of_word_let hword
    obtain ⟨r, rest, hw, hr⟩ := Kind.Spells.begins ht
    rw [hw, List.cons_append] at h
    rw [Spot.ahead_of_rest h] at hahead
    cases hahead
    refine hr.ne_ell ?_ rfl
    rcases hk with (hk | hk) | hk | hk | hk
    · exact Kind.isWord_of_isLiteral hk
    · exact (hname (.inl hk)).elim
    · rw [hk]
      rfl
    · exact (hname (.inr hk)).elim
    · rw [hk]
      rfl

/-- At the head of a statement an expression is read as one. -/
theorem tells_expr {t : Token} {ts us : List Token} {next : Stance} {p : Nat} {os : List Nat}
    (ht : t.Spelt) (hk : t.kind.OpensExpr) (hlet : ¬ t.IsLetName)
    (h : Tells ⟨.operand, p, os⟩ (t :: ts) next us) :
    Tells ⟨.statementHead, p, os⟩ (t :: ts) next us := by
  intro a ha
  have hrest : a.skip.rest = t.text.toList ++ trail (ts ++ us) := Spot.rest_of_shows ha ht
  have hphrase : phrase ⟨.statementHead, p, os⟩ a = phrase ⟨.operand, p, os⟩ a :=
    phrase_of_awaits rfl fun _ => word_ne_let ht hk hlet hrest
  rw [reading_of_phrase hphrase]
  exact h a ha

/-- No statement begins with a name that is spelled like the word `let`. -/
def Stmt.Unmistaken (s : Stmt) : Prop :=
  ∀ t ∈ s.tokens.head?, ¬ t.IsLetName

theorem LetHead.tells (head : LetHead) (h : Printable head.tokens) {us : List Token} :
    Tells .start head.tokens ⟨.operand, 0, []⟩ us := by
  obtain ⟨word, ⟨name, type⟩, assign⟩ := head
  obtain ⟨hword, hrest⟩ := printable_cons.mp h
  refine (hword.tells word.2 ⟨nofun, nofun⟩ rfl).cons ?_
  obtain ⟨htarget, hlast⟩ := printable_append.mp hrest
  have hassign : assign.1.Printable := hlast assign.1 List.mem_cons_self
  cases type with
  | none =>
    have hname := htarget name.1 List.mem_cons_self
    exact (tells_untyped name.2 hname.spelt assign.2 hassign.spelt rfl).cons
      (hassign.tells assign.2 ⟨nofun, nofun⟩ rfl)
  | some typed =>
    obtain ⟨colon, t⟩ := typed
    obtain ⟨hname, hrest⟩ := printable_cons.mp htarget
    obtain ⟨hcolon, ht⟩ := printable_cons.mp hrest
    have hty : Tells ⟨.letType, 0, []⟩ (t.tokens ++ [assign.1]) ⟨.operand, 0, []⟩ us :=
      (t.tells ht 0 []).append (hassign.tells assign.2 ⟨nofun, nofun⟩ rfl)
    exact (tells_typed name.2 hname.spelt colon.2 hcolon.spelt rfl).append hty

/-- A statement is read back. -/
theorem Stmt.tells (s : Stmt) (h : Printable s.tokens) (hs : s.Unmistaken) {us : List Token}
    (hus : Unopened us) : Tells .start s.tokens ⟨.afterOperand, 0, []⟩ us := by
  cases s with
  | expr e =>
    obtain ⟨t, ts, htokens, hk⟩ := e.exists_first
    have htells := e.tells h hus 0 []
    have hfirst : t ∈ (Stmt.expr e).tokens.head? := congrArg List.head? htokens
    have hspelt : t.Spelt := (h t (List.mem_of_mem_head? hfirst)).spelt
    have hlet : ¬ t.IsLetName := hs t hfirst
    show Tells .start e.tokens _ us
    rw [htokens] at htells ⊢
    exact tells_expr hspelt hk hlet htells
  | declaration head e =>
    obtain ⟨hhead, he⟩ := printable_append.mp h
    exact (head.tells hhead).append (e.tells he hus 0 [])

/-- Statements with semicolons behind them are read back. -/
theorem tells_closed (closed : List (Stmt × Token.Is (.keyword .semicolon)))
    (h : Printable (closed.flatMap fun x => x.1.tokens ++ [x.2.1]))
    (hs : ∀ x ∈ closed, x.1.Unmistaken) (us : List Token) :
    Tells .start (closed.flatMap fun x => x.1.tokens ++ [x.2.1]) .start us := by
  induction closed with
  | nil => exact fun a ha => ⟨[], a, ha, rfl, rfl⟩
  | cons x closed ih =>
    obtain ⟨s, semicolon⟩ := x
    rw [List.flatMap_cons] at h ⊢
    obtain ⟨hx, hclosed⟩ := printable_append.mp h
    obtain ⟨hstmt, hsemicolon⟩ := printable_append.mp hx
    have hsemicolon := hsemicolon semicolon.1 List.mem_cons_self
    have hrest := ih hclosed fun y hy => hs y (List.mem_cons_of_mem _ hy)
    refine Tells.append (Tells.append (s.tells hstmt (hs _ List.mem_cons_self) ?_)
      (hsemicolon.tells semicolon.2 ⟨nofun, nofun⟩ rfl)) hrest
    exact unopened_cons hsemicolon (semicolon.ne (by decide))

/-! ## Programs -/

/-- The last statement of a program is read back, if there is one. -/
theorem tells_last (last : Option Stmt) (h : Printable (last.elim [] Stmt.tokens))
    (hs : ∀ s ∈ last, s.Unmistaken) :
    ∃ next : Stance, next.mode.state.mayEnd = true ∧
      Tells .start (last.elim [] Stmt.tokens) next [] := by
  cases last with
  | none => exact ⟨.start, rfl, fun a ha => ⟨[], a, ha, rfl, rfl⟩⟩
  | some s => exact ⟨_, rfl, s.tells h (hs s rfl) unopened_nil⟩

/-- The tokens of a program are read from what is printed of them. -/
theorem Program.reading_print (program : Program) (h : Printable program.tokens)
    (hs : ∀ s ∈ program.statements, s.Unmistaken) (file : String) :
    (reading .start (.first (print program.tokens) file)).1.map Token.view
        = program.tokens.map Token.view ∧
      (reading .start (.first (print program.tokens) file)).2 = none := by
  obtain ⟨closed, last⟩ := program
  obtain ⟨hclosed, hlast⟩ := printable_append.mp h
  obtain ⟨next, hnext, htells⟩ := tells_last last hlast fun s hm =>
    hs s (List.mem_append_right _ (Option.mem_toList.mpr hm))
  have hall : Tells .start (Program.mk closed last).tokens next [] :=
    (tells_closed closed hclosed (fun x hx =>
      hs x.1 (List.mem_append_left _ (List.mem_map_of_mem hx))) _).append htells
  exact hall.reading_print hnext file

/-- Printing the tokens of a program and reading what was printed gives the same kinds and texts in
the same order, and no problem. -/
theorem tokens_print (program : Program) (file : String)
    (spelt : ∀ t ∈ program.tokens, t.Spelt) (unlettered : ∀ t ∈ program.tokens, t.Unlettered)
    (uncomma : Uncomma program.tokens) (unmistaken : ∀ s ∈ program.statements, s.Unmistaken) :
    (Lexer.ofRunes (print program.tokens) file).tokens.1.map Token.view
        = program.tokens.map Token.view ∧
      (∀ t ∈ (Lexer.ofRunes (print program.tokens) file).tokens.1, t.kind ≠ .error) ∧
      (Lexer.ofRunes (print program.tokens) file).tokens.2.error = none := by
  have hprintable : Printable program.tokens := fun t ht =>
    ⟨spelt t ht, unlettered t ht, uncomma t ht⟩
  obtain ⟨htokens, herror⟩ := Lexer.tokens_eq_reading (print program.tokens) file
  obtain ⟨hview, hnone⟩ := program.reading_print hprintable unmistaken file
  rw [htokens, herror]
  refine ⟨hview, fun t ht hk => ?_, hnone⟩
  -- A token of that kind would be one of the program, and no text is spelled so.
  have hmem : t.view ∈ program.tokens.map Token.view := hview ▸ List.mem_map_of_mem ht
  obtain ⟨u, hu, hsame⟩ := List.mem_map.mp hmem
  have hkind : u.kind = .error := (congrArg Prod.fst hsame).trans hk
  exact (spelt u hu).of_kind hkind

/-- The program `! f ( 1 ) ; n`. -/
def callThenName : Program where
  closed := [(.expr (.unary (.bang ⟨⟨.operator .not, "!", 0, 1, "shell"⟩, rfl⟩
    (.call ⟨⟨.function, "f", 2, 3, "shell"⟩, rfl⟩ ⟨⟨.openParen, "(", 4, 5, "shell"⟩, rfl⟩
      (.list (.one (.unary (.value ⟨⟨.integer, "1", 6, 7, "shell"⟩, .inl rfl⟩))))
      ⟨⟨.closeParen, ")", 8, 9, "shell"⟩, rfl⟩))),
    ⟨⟨.keyword .semicolon, ";", 10, 11, "shell"⟩, rfl⟩)]
  last := some (.expr (.unary (.value ⟨⟨.identifier, "n", 12, 13, "shell"⟩, .inr rfl⟩)))

/-- The program `! f ( 1 ) ; n` is read back. -/
theorem tokens_print_callThenName :
    (Lexer.ofRunes (print callThenName.tokens) "shell").tokens.1.map Token.view
      = [(.operator .not, "!"), (.function, "f"), (.openParen, "("), (.integer, "1"),
        (.closeParen, ")"), (.keyword .semicolon, ";"), (.identifier, "n")] := by
  refine (tokens_print callThenName "shell" (fun t ht => ?_) ?_ ?_ ?_).1
  · have hf : Lexer.IsName ['f'] := .of_check (by decide +kernel)
    have hn : Lexer.IsName ['n'] := .of_check (by decide +kernel)
    have hone : IsNumber ['1'] := .of_check (by decide +kernel)
    have htokens : callThenName.tokens = [⟨.operator .not, "!", 0, 1, "shell"⟩,
        ⟨.function, "f", 2, 3, "shell"⟩, ⟨.openParen, "(", 4, 5, "shell"⟩,
        ⟨.integer, "1", 6, 7, "shell"⟩, ⟨.closeParen, ")", 8, 9, "shell"⟩,
        ⟨.keyword .semicolon, ";", 10, 11, "shell"⟩, ⟨.identifier, "n", 12, 13, "shell"⟩] := rfl
    rw [htokens] at ht
    simp only [List.mem_cons, List.not_mem_nil, or_false] at ht
    rcases ht with rfl | rfl | rfl | rfl | rfl | rfl | rfl
    · rfl
    · exact hf
    · rfl
    · exact hone
    · rfl
    · rfl
    · exact hn
  · unfold Token.Unlettered
    decide +kernel
  · unfold Uncomma
    decide
  · unfold Stmt.Unmistaken Token.IsLetName
    decide

/-- The program `Ⅷ` with its only word taken for a number. -/
def numeral : Program where
  closed := []
  last := some (.expr (.unary (.value ⟨⟨.integer, "Ⅷ", 0, 1, "shell"⟩, .inl rfl⟩)))

/-- Without the condition on numbers a program need not be read back: a Roman numeral starts a
number, but it is a letter too, and it is read as a name. -/
theorem numeral_not_read_back :
    (∀ t ∈ numeral.tokens, t.Spelt) ∧ Uncomma numeral.tokens ∧
      (∀ s ∈ numeral.statements, s.Unmistaken) ∧
      (Lexer.ofRunes (print numeral.tokens) "shell").tokens.1.map Token.view
        ≠ numeral.tokens.map Token.view := by
  refine ⟨fun t ht => ?_, ?_, ?_, by decide +kernel⟩
  · rw [List.mem_singleton.mp ht]
    exact IsNumber.of_check (by decide +kernel)
  · unfold Uncomma
    decide
  · unfold Stmt.Unmistaken Token.IsLetName
    decide

end ExprYard
