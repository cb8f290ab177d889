import Scriptlet.Proofs.Syntax.Spelling

/-! Moving the places that a tree points at. No rule of spelling looks at a place: tokens that
spell a tree still spell it after both have been moved. -/

namespace Scriptlet

section
variable (f : Position → Position)

def Span.relocate (s : Span) : Span := ⟨f s.start, f s.stop⟩

theorem Span.relocate_through (a b : Span) :
    (a.through b).relocate f = (a.relocate f).through (b.relocate f) := rfl

def Token.relocate (t : Token) : Token := { t with span := t.span.relocate f }

theorem Token.span_relocate (t : Token) : (t.relocate f).span = t.span.relocate f := rfl

mutual

def Node.relocate : Node → Node
  | .literal token => .literal (token.relocate f)
  | .access name => .access (name.relocate f)
  | .unary op operand span => .unary op operand.relocate (span.relocate f)
  | .binary left op right span => .binary left.relocate op right.relocate (span.relocate f)
  | .group inner span => .group inner.relocate (span.relocate f)
  | .declare name value span => .declare (name.relocate f) value.relocate (span.relocate f)
  | .branch condition body span =>
    .branch condition.relocate (relocateAll body) (span.relocate f)
  | .loop condition body span => .loop condition.relocate (relocateAll body) (span.relocate f)
  | .breakLoop span => .breakLoop (span.relocate f)
  | .continueLoop span => .continueLoop (span.relocate f)
  | .missing span => .missing (span.relocate f)

def relocateAll : List Node → List Node
  | [] => []
  | n :: ns => n.relocate :: relocateAll ns

end

theorem relocateAll_eq_map (ns : List Node) : relocateAll f ns = ns.map (Node.relocate f) := by
  induction ns with
  | nil => rfl
  | cons n ns ih => rw [relocateAll, ih, List.map_cons]

theorem Node.span_relocate (n : Node) : (n.relocate f).span = n.span.relocate f := by
  cases n <;> rfl

theorem Node.isBlock_relocate (n : Node) : (n.relocate f).isBlock = n.isBlock := by
  cases n <;> rfl

theorem Node.isNegation_relocate (n : Node) : (n.relocate f).isNegation = n.isNegation := by
  cases n with
  | unary op => cases op <;> rfl
  | _ => rfl

theorem Node.endsInSign_relocate (n : Node) : (n.relocate f).endsInSign = n.endsInSign := by
  cases n with
  | unary op operand =>
    cases op with
    | not => exact operand.endsInSign_relocate
    | plus | negate => rfl
  | binary _ _ right => exact right.endsInSign_relocate
  | _ => rfl

theorem Tier.admits_relocate {t : Tier} {n : Node} (h : t.admits n) : t.admits (n.relocate f) := by
  cases t with
  | comparison => exact (n.isNegation_relocate f).trans h
  | factor | power => exact (n.endsInSign_relocate f).trans h
  | _ => trivial

theorem Token.block?_relocate {word : Token} {make : Node → List Node → Span → Node}
    (h : word.block? = some make) (condition : Node) (body : List Node) (s : Span) :
    (make condition body s).relocate f =
      make (condition.relocate f) (body.map (Node.relocate f)) (s.relocate f) := by
  rw [← relocateAll_eq_map]
  obtain ⟨-, rfl⟩ | ⟨-, rfl⟩ := block?_eq_some h <;> rfl

def Phrase.relocate : Phrase → Phrase
  | expression n => expression (n.relocate f)
  | tier t n => tier t (n.relocate f)
  | statement n => statement (n.relocate f)
  | statements ns => statements (ns.map (Node.relocate f))

namespace Spelled

theorem relocate {p : Phrase} {ts : List Token} (h : Spelled p ts) :
    Spelled (p.relocate f) (ts.map (Token.relocate f)) := by
  induction h with
  | declare hword hname hmark _ ih =>
    simp only [Phrase.relocate, Node.relocate, List.map_cons, Span.relocate_through,
      ← Token.span_relocate, ← Node.span_relocate]
    exact .declare hword hname hmark ih
  | logical _ ih => exact .logical ih
  | negation hword _ ih =>
    simp only [Phrase.relocate, Node.relocate, List.map_cons, Span.relocate_through,
      ← Token.span_relocate, ← Node.span_relocate]
    exact .negation hword ih
  | operand ht _ ih => exact .operand ht ih
  | join hop hadmits _ _ ihleft ihright =>
    simp only [Phrase.relocate, Node.relocate, List.map_append, List.map_cons,
      Span.relocate_through, ← Node.span_relocate]
    exact .join hop (Tier.admits_relocate f hadmits) ihleft ihright
  | group hopen _ hclose ih =>
    simp only [Phrase.relocate, Node.relocate, List.map_append, List.map_cons, List.map_nil,
      Span.relocate_through, ← Token.span_relocate]
    exact .group hopen ih hclose
  | access hname => exact .access hname
  | literal htoken => exact .literal htoken
  | signed hsign _ ih =>
    simp only [Phrase.relocate, Node.relocate, List.map_cons, Span.relocate_through,
      ← Token.span_relocate, ← Node.span_relocate]
    exact .signed hsign ih
  | block hword hopen _ hclose hbrace _ hlast ihcondition ihbody =>
    rw [Phrase.relocate, Token.block?_relocate f hword]
    simp only [List.map_append, List.map_cons, List.map_nil, Span.relocate_through,
      ← Token.span_relocate]
    exact .block hword hopen ihcondition hclose hbrace ihbody hlast
  | breakLoop hword hmark =>
    simp only [Phrase.relocate, Node.relocate, List.map_cons, List.map_nil, ← Token.span_relocate]
    exact .breakLoop hword hmark
  | continueLoop hword hmark =>
    simp only [Phrase.relocate, Node.relocate, List.map_cons, List.map_nil, ← Token.span_relocate]
    exact .continueLoop hword hmark
  | closed _ hmark ih =>
    simp only [Phrase.relocate, List.map_append, List.map_cons, List.map_nil]
    exact .closed ih hmark
  | finished => exact .finished
  | next _ _ ih ihnext =>
    rw [List.map_append]
    exact .next ih ihnext
  | @bare n ns xs ys hn _ hsign _ ih ihnext =>
    have hsign (y) (hy : y ∈ (ys.map (Token.relocate f)).head?) : UnaryOp.ofSign? y = none := by
      rw [List.head?_map] at hy
      obtain ⟨x, hx, rfl⟩ := Option.map_eq_some_iff.1 hy
      exact hsign x hx
    rw [List.map_append]
    exact .bare ((n.isBlock_relocate f).trans hn) ih hsign ihnext

end Spelled
end
end Scriptlet
