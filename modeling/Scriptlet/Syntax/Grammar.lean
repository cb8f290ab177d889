import Scriptlet.Syntax.Expectation
import Scriptlet.Syntax.Node

/-! Reading a program from tokens. A reading starts at the head of a token list and tells what
was read, how many tokens that took, and which demands were not met; a token that ends the
input stands behind the list. A demand that is not met takes no token, and a missing
expression leaves the end of a statement or of a block for whoever asks for it, so that one
pass finds all independent defects. -/

namespace Scriptlet

structure Reading (α : Type) where
  value : α
  used : Nat
  issues : List Diagnostic

namespace Grammar

def lookahead (stop : Token) (ts : List Token) : Token := ts.headD stop

/-- Takes the token that is demanded, or puts an empty one in its place. -/
def demand (stop : Token) (e : Expectation) (ts : List Token) : Reading Token :=
  let found := lookahead stop ts
  if found.kind = e.kind then ⟨found, 1, []⟩
  else ⟨⟨e.kind, "", none, found.span⟩, 0, [e.diagnostic found]⟩

def terminator (stop : Token) (statement : Node) (ts : List Token) : Reading Unit :=
  if statement.isBlock then
    ⟨(), if (lookahead stop ts).kind = .semicolon then 1 else 0, []⟩
  else
    let mark := demand stop .endOfStatement ts
    ⟨(), mark.used, mark.issues⟩

def missingExpression (stop : Token) (ts : List Token) : Reading Node :=
  let found := lookahead stop ts
  let used := if found.kind ∈ [.semicolon, .rightBrace, .endOfInput] then 0 else 1
  ⟨.missing found.span, used, [MissingExpression.diagnostic found]⟩

/-! Rules call each other on a shorter list, or on one no longer and further down the grammar. -/

theorem fewer {m n a b : Nat} (h : m < n) : Prod.Lex (· < ·) (· < ·) (m, a) (n, b) :=
  Prod.Lex.left a b h

theorem noMore {m n a b : Nat} (h : m ≤ n) (hab : a < b) :
    Prod.Lex (· < ·) (· < ·) (m, a) (n, b) := by
  rcases Nat.lt_or_eq_of_le h with hlt | rfl
  · exact fewer hlt
  · exact Prod.Lex.right m hab

theorem length_drop_le {α : Type} (n : Nat) (xs : List α) : (xs.drop n).length ≤ xs.length := by
  simp

theorem length_drop_lt_cons {α : Type} (n : Nat) (x : α) (xs : List α) :
    (xs.drop n).length < (x :: xs).length :=
  Nat.lt_succ_of_le (length_drop_le n xs)

theorem length_drop_max_one_lt {α : Type} (n : Nat) (x : α) (xs : List α) :
    ((x :: xs).drop (max 1 n)).length < (x :: xs).length := by
  simp only [List.length_drop, List.length_cons]
  omega

mutual

def expression (stop : Token) (ts : List Token) : Reading Node :=
  match ts with
  | [] => tier stop .logical []
  | first :: rest =>
    if first.keyword? = some .declare then
      let name := demand stop .declaredName rest
      let mark := demand stop .declaredEqual (rest.drop name.used)
      let start := name.used + mark.used
      let value := expression stop (rest.drop start)
      { value := .declare name.value value.value (first.span.through value.value.span)
        used := 1 + start + value.used
        issues := name.issues ++ mark.issues ++ value.issues }
    else tier stop .logical (first :: rest)
termination_by (ts.length, 9)
decreasing_by
  · exact noMore (Nat.le_refl _) (by decide)
  · exact fewer (length_drop_lt_cons ..)
  · exact noMore (Nat.le_refl _) (by decide)

def tier (stop : Token) (t : Tier) (ts : List Token) : Reading Node :=
  if _ : t = .primary then primary stop ts
  else
    match ts with
    | [] => tier stop t.operand []
    | first :: rest =>
      if t = .comparison ∧ first.keyword? = some .notWord then
        let operand := tier stop t rest
        { value := .unary .not operand.value (first.span.through operand.value.span)
          used := 1 + operand.used
          issues := operand.issues }
      else
        let left := tier stop t.operand (first :: rest)
        let whole := chain stop t left.value ((first :: rest).drop left.used)
        { value := whole.value
          used := left.used + whole.used
          issues := left.issues ++ whole.issues }
termination_by (ts.length, t.height + 2)
decreasing_by
  · exact noMore (Nat.le_refl _) (by omega)
  · exact noMore (Nat.le_refl _) (Nat.add_lt_add_right (Tier.height_operand_lt ‹_›) 2)
  · exact fewer (Nat.lt_succ_self _)
  · exact noMore (Nat.le_refl _) (Nat.add_lt_add_right (Tier.height_operand_lt ‹_›) 2)
  · exact noMore (length_drop_le ..) (Nat.succ_pos _)

def chain (stop : Token) (t : Tier) (left : Node) (ts : List Token) : Reading Node :=
  match ts with
  | [] => ⟨left, 0, []⟩
  | first :: rest =>
    match t.operator? first with
    | none => ⟨left, 0, []⟩
    | some op =>
      let right := tier stop t.operand rest
      let joined := Node.binary left op right.value (left.span.through right.value.span)
      let whole := chain stop t joined (rest.drop right.used)
      { value := whole.value
        used := 1 + right.used + whole.used
        issues := right.issues ++ whole.issues }
termination_by (ts.length, 0)
decreasing_by
  · exact fewer (Nat.lt_succ_self _)
  · exact fewer (length_drop_lt_cons ..)

def primary (stop : Token) (ts : List Token) : Reading Node :=
  match ts with
  | [] => missingExpression stop []
  | first :: rest =>
    match first.kind with
    | .leftParen =>
      let inner := expression stop rest
      let close := demand stop .closeGroup (rest.drop inner.used)
      { value := .group inner.value (first.span.through close.value.span)
        used := 1 + inner.used + close.used
        issues := inner.issues ++ close.issues }
    | .identifier => ⟨.access first, 1, []⟩
    | .number => ⟨.literal first, 1, []⟩
    | .plus => signed stop .plus first rest
    | .minus => signed stop .negate first rest
    | _ =>
      match first.keyword? with
      | some .ifWord => block stop .branch first rest
      | some .whileWord => block stop .loop first rest
      | _ => missingExpression stop (first :: rest)
termination_by (ts.length, 1)
decreasing_by
  all_goals exact fewer (Nat.lt_succ_self _)

def signed (stop : Token) (op : UnaryOp) (sign : Token) (ts : List Token) : Reading Node :=
  let operand := tier stop .factor ts
  { value := .unary op operand.value (sign.span.through operand.value.span)
    used := 1 + operand.used
    issues := operand.issues }
termination_by (ts.length, 12)
decreasing_by
  exact noMore (Nat.le_refl _) (by decide)

def block (stop : Token) (make : Node → List Node → Span → Node) (word : Token)
    (ts : List Token) : Reading Node :=
  let opening := demand stop (.openCondition word.text) ts
  let condition := expression stop (ts.drop opening.used)
  let afterCondition := opening.used + condition.used
  let closing := demand stop (.closeCondition word.text) (ts.drop afterCondition)
  let afterClosing := afterCondition + closing.used
  let brace := demand stop (.openBody word.text) (ts.drop afterClosing)
  let afterBrace := afterClosing + brace.used
  let body := statements stop true (ts.drop afterBrace)
  let afterBody := afterBrace + body.used
  let last := demand stop .closeBody (ts.drop afterBody)
  { value := make condition.value body.value (word.span.through last.value.span)
    used := 1 + afterBody + last.used
    issues := opening.issues ++ condition.issues ++ closing.issues ++ brace.issues ++
      body.issues ++ last.issues }
termination_by (ts.length, 12)
decreasing_by
  · exact noMore (length_drop_le ..) (by decide)
  · exact noMore (length_drop_le ..) (by decide)

def statement (stop : Token) (ts : List Token) : Reading Node :=
  match (lookahead stop ts).keyword? with
  | some .breakWord =>
    let mark := demand stop .endOfBreak (ts.drop 1)
    ⟨.breakLoop (lookahead stop ts).span, 1 + mark.used, mark.issues⟩
  | some .continueWord =>
    let mark := demand stop .endOfContinue (ts.drop 1)
    ⟨.continueLoop (lookahead stop ts).span, 1 + mark.used, mark.issues⟩
  | _ =>
    let whole := expression stop ts
    let mark := terminator stop whole.value (ts.drop whole.used)
    ⟨whole.value, whole.used + mark.used, whole.issues ++ mark.issues⟩
termination_by (ts.length, 10)
decreasing_by
  exact noMore (Nat.le_refl _) (by decide)

/-- Statements up to the end of the list, or of the block that they are in. Each takes at least
one token. -/
def statements (stop : Token) (inBlock : Bool) (ts : List Token) : Reading (List Node) :=
  match ts with
  | [] => ⟨[], 0, []⟩
  | first :: rest =>
    if inBlock && first.kind = .rightBrace then ⟨[], 0, []⟩
    else
      let head := statement stop (first :: rest)
      let used := max 1 head.used
      let tail := statements stop inBlock ((first :: rest).drop used)
      { value := head.value :: tail.value
        used := used + tail.used
        issues := head.issues ++ tail.issues }
termination_by (ts.length, 11)
decreasing_by
  · exact noMore (Nat.le_refl _) (by decide)
  · exact fewer (length_drop_max_one_lt ..)

end
end Grammar
end Scriptlet
