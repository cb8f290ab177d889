import Scriptlet.Proofs.Syntax.Relocation

/-! Writing a tree out. What is written for a tree is read back from any tokens of the same
form: the text of a mark or of a reserved word says nothing that its kind does not. -/

namespace Scriptlet

namespace Token

/-- What the syntax can tell of a token. Only a name or a number is known by its text. -/
def form (t : Token) : TokenKind × Option Keyword × Option (String × Option Literal) :=
  (t.kind, t.keyword?,
    if t.kind = .identifier ∨ t.kind = .number then some (t.text, t.literal) else none)

def mark (text : String) : Token := .ofText text.toList .nowhere

theorem kind_of_form {a b : Token} (h : a.form = b.form) : a.kind = b.kind := congrArg Prod.fst h

theorem keyword?_of_form {a b : Token} (h : a.form = b.form) : a.keyword? = b.keyword? :=
  congrArg (·.2.1) h

theorem form_of_kind {t : Token} {k : TokenKind} (h : t.kind = k)
    (hk : k ∉ [TokenKind.identifier, .number, .keyword] := by decide) :
    t.form = (k, none, none) := by
  subst h
  simp only [List.mem_cons, List.not_mem_nil, or_false, not_or] at hk
  obtain ⟨hidentifier, hnumber, hkeyword⟩ := hk
  rw [form, keyword?_eq_none hkeyword, if_neg (not_or.2 ⟨hidentifier, hnumber⟩)]

theorem form_of_keyword? {t : Token} {k : Keyword} (h : t.keyword? = some k) :
    t.form = (.keyword, some k, none) := by
  rw [form, h, kind_of_keyword? h]
  rfl

def unplaced (t : Token) : Token := t.relocate fun _ => .start ""

theorem unplaced_of_form {a b : Token} (h : a.form = b.form)
    (hb : b.kind = .identifier ∨ b.kind = .number) : a.unplaced = b.unplaced := by
  have hkind := kind_of_form h
  have hrest := congrArg (·.2.2) h
  simp only [form, hkind, if_pos hb, Option.some.injEq, Prod.mk.injEq] at hrest
  obtain ⟨htext, hliteral⟩ := hrest
  simp only [unplaced, relocate, Span.relocate, hkind, htext, hliteral]

end Token

theorem BinaryOp.ofToken?_of_form {a b : Token} (h : a.form = b.form) :
    BinaryOp.ofToken? a = BinaryOp.ofToken? b := by
  unfold ofToken?
  rw [Token.kind_of_form h, Token.keyword?_of_form h]

theorem BinaryOp.ofToken?_mark (op : BinaryOp) : ofToken? (.mark op.symbol) = some op := by
  cases op <;> rfl

theorem BinaryOp.form_of_ofToken? {t : Token} {op : BinaryOp} (h : ofToken? t = some op) :
    t.form = (Token.mark op.symbol).form := by
  unfold ofToken? at h
  split at h
  case h_12 =>
    split at h
    · next hword =>
      obtain rfl := Option.some.inj h
      exact Token.form_of_keyword? hword
    · next hword =>
      obtain rfl := Option.some.inj h
      exact Token.form_of_keyword? hword
    · cases h
  all_goals
    next hkind =>
      obtain rfl := Option.some.inj h
      exact Token.form_of_kind hkind

theorem UnaryOp.form_of_ofSign? {t : Token} {op : UnaryOp} (h : ofSign? t = some op) :
    t.form = (Token.mark op.symbol).form := by
  rcases ofSign?_eq_some h with ⟨hkind, rfl⟩ | ⟨hkind, rfl⟩ <;> exact Token.form_of_kind hkind

structure Slot where
  token : Token
  optional : Bool

namespace Slot

def mark (text : String) : Slot := ⟨.mark text, false⟩

end Slot

mutual

def Node.slots : Node → List Slot
  | .literal token => [⟨token, false⟩]
  | .access name => [⟨name, false⟩]
  | .unary op operand _ => .mark op.symbol :: operand.slots
  | .binary left op right _ => left.slots ++ .mark op.symbol :: right.slots
  | .group inner _ => .mark "(" :: (inner.slots ++ [.mark ")"])
  | .declare name value _ => .mark "declare" :: ⟨name, false⟩ :: .mark "=" :: value.slots
  | .branch condition body _ =>
    .mark "if" :: .mark "(" ::
      (condition.slots ++ .mark ")" :: .mark "\x7b" :: (slotsAll body ++ [.mark "\x7d"]))
  | .loop condition body _ =>
    .mark "while" :: .mark "(" ::
      (condition.slots ++ .mark ")" :: .mark "\x7b" :: (slotsAll body ++ [.mark "\x7d"]))
  | .breakLoop _ => [.mark "break"]
  | .continueLoop _ => [.mark "continue"]
  | .missing _ => []

/-- Every statement ends with a semicolon, which a block need not have. -/
def slotsAll : List Node → List Slot
  | [] => []
  | n :: ns => n.slots ++ ⟨.mark ";", n.isBlock⟩ :: slotsAll ns

end

def Program.write (p : Program) : List Token := (slotsAll p).map Slot.token

/-- The tokens are those of the writing, without some of the optional ones. -/
inductive Fits : List Slot → List Token → Prop
  | nil : Fits [] []
  | keep {slot : Slot} {token slots ts} (htoken : token.form = slot.token.form)
      (h : Fits slots ts) : Fits (slot :: slots) (token :: ts)
  | leave {slot : Slot} {slots ts} (hoptional : slot.optional = true) (h : Fits slots ts) :
      Fits (slot :: slots) ts

namespace Fits

theorem append {xs ys : List Slot} {ts us : List Token} (hxs : Fits xs ts) (hys : Fits ys us) :
    Fits (xs ++ ys) (ts ++ us) := by
  induction hxs with
  | nil => exact hys
  | keep htoken _ ih => exact .keep htoken ih
  | leave hoptional _ ih => exact .leave hoptional ih

theorem single {slot : Slot} {token : Token} (htoken : token.form = slot.token.form) :
    Fits [slot] [token] := .keep htoken .nil

end Fits
end Scriptlet
