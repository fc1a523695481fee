import ExprYard.Proofs.Parser.Requests

/-!
# No parser oversteps its bounds

`Strict` is the parser with every bound checked that the plain one takes for granted: where the
floor lies above the operands, where fewer operands are there than are to be taken, and where the
call that a group belongs to cannot have it, the strict parser comes to nothing at all. It never
does, for any tokens and after any failures (`requests_within_bounds`), since the layers of a parser
stay in order.
-/

namespace ExprYard

namespace Parser

namespace Strict

/-- How many operands may be folded, unless the floor lies above all of them. -/
def available (p : Parser) : Option Nat :=
  if p.floor ≤ p.operands.length then some (p.operands.length - p.floor) else none

/-- Folds the latest `count` operands, unless fewer than that are there although so many may be
folded. -/
def fold (token : Token) (count : Nat) (p : Parser) : Option Outcome :=
  match available p with
  | none => none
  | some free =>
    if free < count then some (p, some (missing token))
    else if p.operands.length < count then none
    else
      let node := Tree.branch token (p.operands.take count).reverse
      some ({ p with operands := node :: p.operands.drop count }, none)

/-- Goes on with what has not failed. -/
def andThen (o : Option Outcome) (next : Parser → Option Outcome) : Option Outcome :=
  match o with
  | some (p, none) => next p
  | stopped => stopped

/-- Folds the waiting operators that take their operands before `incoming` may have them. -/
def foldBefore (incoming : Binding) : List Marker → Parser → Option Outcome
  | .operator token binding :: pending, p =>
    if binding.foldsBefore incoming then
      andThen (fold token binding.arity.operands { p with pending }) (foldBefore incoming pending)
    else some (p, none)
  | _, p => some (p, none)

/-- Takes an operator in. -/
def pushOperator (token : Token) (binding : Binding) (p : Parser) : Option Outcome :=
  match binding.arity with
  | .unary => some (p.await (.operator token binding), none)
  | .binary =>
    andThen (foldBefore binding p.pending p) fun p =>
      some (p.await (.operator token binding), none)

/-- Folds the operators of the innermost group. What is left to do then asks for no operands. -/
def endGroup (closing : Token) : List Marker → Parser → Option Outcome
  | .operator token binding :: pending, p =>
    andThen (fold token binding.arity.operands { p with pending }) (endGroup closing pending)
  | pending, p => some (endGroup.go closing pending p)

/-- Takes a closing parenthesis in, unless a call waits for the group and cannot have it. -/
def pushClosing (closing : Token) (p : Parser) : Option Outcome :=
  andThen (endGroup closing p.pending p) fun p =>
    match p.pending with
    | .call token :: pending =>
      match fold token 1 { p with pending } with
      | some (p, none) => some (p, none)
      | _ => none
    | _ =>
      match p.operands with
      | [] => some (p, none)
      | group :: operands => some ({ p with operands := group.closeTuple :: operands }, none)

/-- Folds everything that waits. What is left to do then asks for no operands. -/
def drain : List Marker → Parser → Option Outcome
  | .operator token binding :: pending, p =>
    andThen (fold token binding.arity.operands { p with pending }) (drain pending)
  | .letWord token :: pending, p => andThen (fold token 1 { p with pending }) (drain pending)
  | pending, p => some (drain.go pending p)

/-- Takes a token in. One that is neither an operator nor the end of something asks for no
operands. -/
def push (token : Token) (p : Parser) : Option Outcome :=
  match token.kind with
  | .closeParen => pushClosing token p
  | .keyword .semicolon => drain p.pending p
  | kind =>
    match kind.binding with
    | some binding => pushOperator token binding p
    | none => some (p.push token)

/-- Ends the tokens. -/
def finish (p : Parser) : Option (Parser × Except Diagnostic (List Tree)) :=
  match drain p.pending p with
  | none => none
  | some (p, none) => some ({ p with operands := [], statementStart := 0 }, .ok p.trees)
  | some (p, some failure) => some (p, .error failure)

/-! ## The strict parser is the parser -/

variable {p : Parser} {m : Marker} {ms : List Marker}

theorem fold_eq (token : Token) (count : Nat) (h : p.floor ≤ p.operands.length) :
    fold token count p = some (Parser.fold token count p) := by
  unfold fold available Parser.fold
  rw [if_pos h]
  dsimp only
  by_cases hshort : p.available < count
  · rw [if_pos hshort]
    exact if_pos hshort
  · rw [if_neg hshort]
    have hcount : ¬ p.operands.length < count := by
      unfold Parser.available at hshort
      omega
    refine (if_neg hshort).trans (if_neg hcount)

/-- The fold of the latest marker, and what follows. -/
theorem andThen_fold {strict : Parser → Option Outcome} {next : Parser → Outcome} (h : p.Layered)
    (hp : p.pending = m :: ms) (hm : m.isFolded = true)
    (hnext : ∀ q : Parser, q.pending = ms → q.Layered → strict q = some (next q)) :
    andThen (fold m.token m.demand { p with pending := ms }) strict
      = some (match Parser.fold m.token m.demand { p with pending := ms } with
        | (q, none) => next q
        | failure => failure) := by
  rw [fold_eq _ _ (h.drop hp).floor_le]
  rcases fold_latest hp hm with ⟨q, hq, hms, hreduces⟩ | ⟨hq, -⟩
  · rw [hq]
    exact hnext q hms (hreduces.layered h)
  · rw [hq]
    rfl

theorem foldBefore_eq (b : Binding) : ∀ (ms : List Marker) (p : Parser), p.Layered →
    p.pending = ms → foldBefore b ms p = some (foldBefore.go b ms p) := by
  intro ms
  induction ms with
  | nil => exact fun p _ _ => rfl
  | cons m ms ih =>
    intro p h hp
    cases m with
    | operator t c =>
      rw [foldBefore, Parser.foldBefore.go]
      split
      · exact andThen_fold (m := .operator t c) h hp rfl fun q hq hl => ih q hl hq
      · rfl
    | paren | call | letWord => rfl

theorem endGroup_eq (t : Token) : ∀ (ms : List Marker) (p : Parser), p.Layered →
    p.pending = ms → endGroup t ms p = some (endGroup.go t ms p) := by
  intro ms
  induction ms with
  | nil => exact fun p _ _ => rfl
  | cons m ms ih =>
    intro p h hp
    cases m with
    | operator t c => exact andThen_fold (m := .operator t c) h hp rfl fun q hq hl => ih q hl hq
    | paren | call | letWord => rfl

theorem drain_eq : ∀ (ms : List Marker) (p : Parser), p.Layered → p.pending = ms →
    drain ms p = some (drain.go ms p) := by
  intro ms
  induction ms with
  | nil => exact fun p _ _ => rfl
  | cons m ms ih =>
    intro p h hp
    cases m with
    | operator t c => exact andThen_fold (m := .operator t c) h hp rfl fun q hq hl => ih q hl hq
    | letWord t => exact andThen_fold (m := .letWord t) h hp rfl fun q hq hl => ih q hl hq
    | paren | call => rfl

theorem pushOperator_eq (t : Token) (b : Binding) (h : p.Layered) :
    pushOperator t b p = some (p.pushOperator t b) := by
  unfold pushOperator Parser.pushOperator
  cases b.arity with
  | unary => rfl
  | binary =>
    dsimp only
    rw [foldBefore_eq b p.pending p h rfl]
    show andThen (some (p.foldBefore b)) _ = _
    obtain ⟨q, d⟩ := p.foldBefore b
    cases d <;> rfl

theorem pushClosing_eq (t : Token) (h : p.Layered) :
    pushClosing t p = some (p.pushClosing t) := by
  unfold pushClosing Parser.pushClosing
  rw [endGroup_eq t p.pending p h rfl]
  show andThen (some (p.endGroup t)) _ = _
  have hwalk := endGroup_walks t p
  cases hend : p.endGroup t with
  | mk q d =>
  rw [hend] at hwalk
  cases d with
  | some d => rfl
  | none =>
    obtain ⟨r, hl, hclosed⟩ := hwalk.exists_end h (fun hr => hr.layered) rfl
    obtain @⟨opening, n, ms, x, xs, hp, group⟩ := hclosed
    cases ms with
    | nil => rfl
    | cons m ms =>
      cases m with
      | call f =>
        -- The group that the call takes lies above the floor below its parenthesis.
        have hfloor : ({ r with operands := x :: xs, pending := ms } : Parser).floor
            ≤ (x :: xs).length := by
          have hn := group.le_length (hl.count_le hp)
          have hgroup : ({ r with operands := x :: xs, pending := .call f :: ms } :
              Parser).Layered := hl.leave hp (Nat.le_succ_of_le hn)
          exact (hgroup.drop rfl).floor_le
        have hfold := fold_argument f x xs ms r
        rw [if_neg (Nat.not_lt_of_le (hl.reaches hp group))] at hfold
        have hstrict := fold_eq f 1 hfloor
        rw [hfold] at hstrict
        dsimp only [andThen]
        rw [hstrict, hfold]
      | operator | paren | letWord => rfl

/-- The strict parser takes a token in as the parser does. -/
theorem push_eq (t : Token) (h : p.Layered) : push t p = some (p.push t) := by
  unfold push Parser.push
  cases hk : t.kind with
  | closeParen => exact pushClosing_eq t h
  | operator op => exact pushOperator_eq t op.binding h
  | keyword word =>
    cases word with
    | semicolon => exact drain_eq p.pending p h rfl
    | typeSeparator | assign | comma => exact pushOperator_eq t _ h
    | letWord => rfl
  | _ => rfl

/-- The strict parser finishes as the parser does. -/
theorem finish_eq (h : p.Layered) : finish p = some p.finish := by
  unfold finish Parser.finish
  rw [drain_eq p.pending p h rfl]
  rw [show Parser.drain.go p.pending p = p.drain from rfl]
  obtain ⟨q, d⟩ := p.drain
  cases d <;> rfl

end Strict

/-- Whatever a parser has been asked for, its layers are in order, and whatever it is asked for next
it does without overstepping a bound. -/
theorem requests_within_bounds (rs : List Request) :
    (empty.after rs).Layered ∧
      (∀ t, Strict.push t (empty.after rs) = some ((empty.after rs).push t)) ∧
      Strict.finish (empty.after rs) = some (empty.after rs).finish := by
  have h := layered_after rs
  exact ⟨h, fun t => Strict.push_eq t h, Strict.finish_eq h⟩

end Parser

end ExprYard
