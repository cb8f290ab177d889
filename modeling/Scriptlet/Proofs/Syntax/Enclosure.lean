import Scriptlet.Proofs.Syntax.Concatenation
import Scriptlet.Proofs.Syntax.RoundTrip
import Scriptlet.Proofs.Token.Separation

/-! Programs with parentheses all over. With every part of an expression in parentheses of its own,
no operator can take what is not its own, so that any tree at all is read back from its text, be it
one that the grammar does not give without them. -/

namespace Scriptlet

mutual

/-- The tree with each part of each expression in parentheses of its own. -/
def Node.enclosed : Node → Node
  | .literal token => .literal token
  | .access name => .access name
  | .unary op operand s => .unary op (.group operand.enclosed .nowhere) s
  | .binary left op right s =>
    .binary (.group left.enclosed .nowhere) op (.group right.enclosed .nowhere) s
  | .group inner s => .group (.group inner.enclosed .nowhere) s
  | .declare name value s => .declare name (.group value.enclosed .nowhere) s
  | .branch condition body s => .branch (.group condition.enclosed .nowhere) (enclosedAll body) s
  | .loop condition body s => .loop (.group condition.enclosed .nowhere) (enclosedAll body) s
  | .breakLoop s => .breakLoop s
  | .continueLoop s => .continueLoop s
  | .missing s => .missing s

def enclosedAll : List Node → List Node
  | [] => []
  | n :: ns => n.enclosed :: enclosedAll ns

end

theorem enclosedAll_eq_map (ns : List Node) : enclosedAll ns = ns.map Node.enclosed := by
  induction ns with
  | nil => rfl
  | cons n ns ih => rw [enclosedAll, ih, List.map_cons]

inductive Role
  | statement | expression

/-- A tree that can be written down. Its numbers and its names come from some texts, nothing is
missing, and breaks and continues are statements. -/
inductive Writable : Role → Node → Prop
  | breakLoop (s : Span) : Writable .statement (.breakLoop s)
  | continueLoop (s : Span) : Writable .statement (.continueLoop s)
  | expression {n : Node} (h : Writable .expression n) : Writable .statement n
  | literal {token : Token} (htoken : token.kind = .number) (hlexable : token.Lexable) :
      Writable .expression (.literal token)
  | access {name : Token} (hname : name.kind = .identifier) (hlexable : name.Lexable) :
      Writable .expression (.access name)
  | unary {n : Node} (op : UnaryOp) (s : Span) (h : Writable .expression n) :
      Writable .expression (.unary op n s)
  | binary {left right : Node} (op : BinaryOp) (s : Span) (hleft : Writable .expression left)
      (hright : Writable .expression right) : Writable .expression (.binary left op right s)
  | group {n : Node} (s : Span) (h : Writable .expression n) : Writable .expression (.group n s)
  | declare {name : Token} {value : Node} (s : Span) (hname : name.kind = .identifier)
      (hlexable : name.Lexable) (hvalue : Writable .expression value) :
      Writable .expression (.declare name value s)
  | branch {condition : Node} {body : List Node} (s : Span)
      (hcondition : Writable .expression condition) (hbody : ∀ n ∈ body, Writable .statement n) :
      Writable .expression (.branch condition body s)
  | loop {condition : Node} {body : List Node} (s : Span)
      (hcondition : Writable .expression condition) (hbody : ∀ n ∈ body, Writable .statement n) :
      Writable .expression (.loop condition body s)

namespace Canonical

theorem raise {t : Tier} {n : Node} (h : Canonical (.tier t) n) (u : Tier)
    (hle : t.height ≤ u.height) : Canonical (.tier u) n := by
  by_cases hne : t = u
  · exact hne ▸ h
  · have hu : u ≠ .primary := by
      rintro rfl
      cases t <;> first | exact hne rfl | exact absurd hle (by decide)
    exact .operand hu (raise h u.operand (Tier.height_le_operand hle hne)).level
termination_by u.height
decreasing_by exact Tier.height_operand_lt hu

theorem enclosing {n : Node} (h : Canonical .expression n) (t : Tier) :
    Canonical (.tier t) (.group n .nowhere) :=
  (Canonical.group .nowhere h).raise t (Nat.zero_le _)

end Canonical

namespace Writable

theorem canonical {r : Role} {n : Node} (h : Writable r n) :
    match r with
    | .statement => Canonical .statement n.enclosed
    | .expression => Canonical .expression n.enclosed := by
  -- in parentheses a tree is a primary, and that is an operand everywhere
  have loosen {t : Tier} {n : Node} (h : Canonical (.tier t) n) : Canonical .expression n :=
    .logical (h.raise .logical (by cases t <;> decide))
  induction h with
  | breakLoop s => exact .breakLoop s
  | continueLoop s => exact .continueLoop s
  | expression _ ih => exact .expression ih
  | literal htoken => exact loosen (.literal htoken)
  | access hname => exact loosen (.access hname)
  | unary op s _ ih =>
    cases op with
    | not =>
      have hnegation := Canonical.not s (.comparison (ih.enclosing .comparison))
      exact .logical (.operand (by decide) hnegation)
    | plus | negate => exact loosen (.signed s (by decide) (ih.enclosing .factor))
  | binary op s _ _ ihleft ihright =>
    have hright := (ihright.enclosing op.tier.operand).level
    exact loosen (.binary s rfl (ihleft.enclosing op.tier) hright fun _ => rfl)
  | group s _ ih => exact loosen (.group s (loosen (ih.enclosing .primary)))
  | declare s hname _ _ ih => exact .declare s hname (loosen (ih.enclosing .primary))
  | branch s _ _ ih ihbody =>
    rw [Node.enclosed, enclosedAll_eq_map]
    exact loosen (.branch s (loosen (ih.enclosing .primary)) (List.forall_mem_map.2 ihbody))
  | loop s _ _ ih ihbody =>
    rw [Node.enclosed, enclosedAll_eq_map]
    exact loosen (.loop s (loosen (ih.enclosing .primary)) (List.forall_mem_map.2 ihbody))

end Writable

namespace Token

def marks : List String :=
  ["(", ")", "\x7b", "\x7d", ";", "=", "declare", "if", "while", "break", "continue"] ++
    UnaryOp.all.map UnaryOp.symbol ++ BinaryOp.all.map BinaryOp.symbol

theorem isWord_mark {text : String} (h : text ∈ marks) : (mark text).IsWord := by
  have hall : ∀ text ∈ marks, text.toList ≠ [] ∧ Lexeme.longest text.toList = text.toList := by
    decide +kernel
  obtain ⟨hne, hlongest⟩ := hall text h
  exact isWord_ofText ⟨hne, hlongest⟩ .nowhere

theorem isWord_unary (op : UnaryOp) : (mark op.symbol).IsWord :=
  isWord_mark (by cases op <;> decide)

theorem isWord_binary (op : BinaryOp) : (mark op.symbol).IsWord :=
  isWord_mark (by cases op <;> decide)

end Token

def Slot.AllWords (slots : List Slot) : Prop := ∀ slot ∈ slots, slot.token.IsWord

namespace Slot.AllWords

theorem nil : AllWords [] := fun _ h => absurd h List.not_mem_nil

theorem append {xs ys : List Slot} (hxs : AllWords xs) (hys : AllWords ys) :
    AllWords (xs ++ ys) := List.forall_mem_append.2 ⟨hxs, hys⟩

theorem cons {slot : Slot} {slots : List Slot} (hslot : slot.token.IsWord) (h : AllWords slots) :
    AllWords (slot :: slots) := List.forall_mem_cons.2 ⟨hslot, h⟩

theorem single {slot : Slot} (hslot : slot.token.IsWord) : AllWords [slot] :=
  List.forall_mem_singleton.2 hslot

theorem mark {text : String} {slots : List Slot} (h : AllWords slots)
    (htext : text ∈ Token.marks := by decide) : AllWords (.mark text :: slots) :=
  .cons (Token.isWord_mark htext) h

theorem group {n : Node} (h : AllWords n.slots) : AllWords (Node.group n .nowhere).slots := by
  rw [Node.slots]
  exact .mark (h.append (.mark .nil))

theorem statements {ns : List Node} (h : ∀ n ∈ ns, AllWords n.slots) :
    AllWords (slotsAll ns) := by
  induction ns with
  | nil => exact .nil
  | cons n ns ih =>
    obtain ⟨hn, hns⟩ := List.forall_mem_cons.1 h
    exact hn.append (.cons (Token.isWord_mark (by decide)) (ih hns))

end Slot.AllWords

theorem Writable.allWords {r : Role} {n : Node} (h : Writable r n) :
    Slot.AllWords n.enclosed.slots := by
  induction h with
  | breakLoop | continueLoop =>
    rw [Node.enclosed, Node.slots]
    exact .mark .nil
  | expression _ ih => exact ih
  | literal htoken hlexable | access htoken hlexable =>
    rw [Node.enclosed, Node.slots]
    exact .single (Token.isWord_iff.2 ⟨hlexable, by simp [htoken]⟩)
  | unary op _ _ ih =>
    rw [Node.enclosed, Node.slots]
    exact .cons (Token.isWord_unary op) ih.group
  | binary op _ _ _ ihleft ihright =>
    rw [Node.enclosed, Node.slots]
    exact ihleft.group.append (.cons (Token.isWord_binary op) ihright.group)
  | group _ _ ih =>
    rw [Node.enclosed, Node.slots]
    exact .mark (ih.group.append (.mark .nil))
  | declare _ hname hlexable _ ih =>
    rw [Node.enclosed, Node.slots]
    exact .mark (.cons (Token.isWord_iff.2 ⟨hlexable, by simp [hname]⟩) (.mark ih.group))
  | branch _ _ _ ih ihbody | loop _ _ _ ih ihbody =>
    rw [Node.enclosed, enclosedAll_eq_map, Node.slots]
    have hbody := Slot.AllWords.statements (List.forall_mem_map.2 ihbody)
    exact .mark (.mark (ih.group.append (.mark (.mark (hbody.append (.mark .nil))))))

namespace Program

def Writable (p : Program) : Prop := ∀ n ∈ p, Scriptlet.Writable .statement n

def enclosed (p : Program) : Program := enclosedAll p

def enclosedText (p : Program) : String := Tokens.spaced p.enclosed.write

theorem exists_parseText_enclosedText {p : Program} (hp : p.Writable) (source : String) :
    ∃ q : Program, parseText source p.enclosedText = ⟨q, []⟩ ∧
      q.map Node.unplaced = p.enclosed.map Node.unplaced := by
  have henclosed : p.enclosed = p.map Node.enclosed := enclosedAll_eq_map p
  have hreads : ∀ n ∈ p.enclosed, Level.statement.ReadsBack n := by
    rw [henclosed]
    exact List.forall_mem_map.2 fun n hn => (hp n hn).canonical.readsBack
  have hwords : ∀ t ∈ p.enclosed.write, t.IsWord := by
    have hslots : Slot.AllWords (slotsAll p.enclosed) := by
      rw [henclosed]
      exact .statements (List.forall_mem_map.2 fun n hn => (hp n hn).allWords)
    exact List.forall_mem_map.2 hslots
  obtain ⟨hstray, hunplaced⟩ := Tokens.words_spaced hwords (.start source)
  have hforms := congrArg (List.map Token.form) hunplaced
  rw [List.map_map, List.map_map] at hforms
  obtain ⟨q, hspelled, hq⟩ := exists_spelled_statements hreads _ hforms
  exact ⟨q, parseText_eq_iff.2 ⟨hstray, hspelled⟩, hq⟩

end Program
end Scriptlet
