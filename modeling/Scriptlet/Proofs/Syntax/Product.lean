import Scriptlet.Proofs.Syntax.BlockEnd
import Scriptlet.Proofs.Syntax.RoundTrip

/-! Chains of `*` and `/`. Their operands fold to the left up to the first one that has a sign in
front of it: the sign takes that operand and all the rest of the chain, which is read in the same
way again. -/

namespace Scriptlet

theorem Node.endsInSign_of_isAtom {n : Node} (h : n.isAtom = true) : n.endsInSign = false := by
  cases n <;> first | rfl | cases h

theorem Node.isBlock_of_isAtom {n : Node} (h : n.isAtom = true) : n.isBlock = false := by
  cases n <;> first | rfl | cases h

theorem Spelled.primary_of_ended {n : Node} {ts : List Token} {mark : Token}
    (h : Spelled (.statements [n]) (ts ++ [mark])) (hn : n.isAtom = true) :
    Spelled (.tier .primary n) ts := by
  generalize hts : ts ++ [mark] = us at h
  cases h with
  | next h hnext =>
    cases hnext
    rw [List.append_nil] at hts
    cases h with
    | breakLoop | continueLoop => cases hn
    | closed h =>
      obtain ⟨rfl, -⟩ := List.append_inj' hts rfl
      exact h.primary_of_isAtom_or_isBlock (.inl hn)
  | bare hblock => exact nomatch hblock.symm.trans (Node.isBlock_of_isAtom hn)

namespace Product

/-- Tokens that are read, with a semicolon behind them, as one number, name or tree in
parentheses. -/
structure Operand where
  tokens : List Token
  node : Node
  proper : ∀ t ∈ tokens, t.kind ≠ .endOfInput
  parsed : ∃ mark : Token, mark.kind = .semicolon ∧ parse (tokens ++ [mark]) [] = ⟨[node], []⟩
  atom : node.isAtom = true

structure Sign where
  token : Token
  op : UnaryOp
  stands : token.kind = .plus ∧ op = .plus ∨ token.kind = .minus ∧ op = .negate

structure Link where
  token : Token
  op : BinaryOp
  stands : token.kind = .star ∧ op = .multiply ∨ token.kind = .slash ∧ op = .divide
  sign? : Option Sign
  operand : Operand

def Sign.apply (s : Sign) (n : Node) : Node := .unary s.op n (s.token.span.through n.span)

namespace Link

def tokens (l : Link) : List Token :=
  l.token :: ((l.sign?.map Sign.token).toList ++ l.operand.tokens)

def join (l : Link) (left right : Node) : Node :=
  .binary left l.op right (left.span.through right.span)

/-- One step of a left fold: a sign takes the operand of its link, and no more. -/
def extend (left : Node) (l : Link) : Node :=
  l.join left (l.sign?.elim l.operand.node (Sign.apply · l.operand.node))

end Link

def tokens (x : Operand) (links : List Link) : List Token :=
  x.tokens ++ links.flatMap Link.tokens

def tree (left : Node) : List Link → Node
  | [] => left
  | l :: rest =>
    match l.sign? with
    | none => tree (l.join left l.operand.node) rest
    | some s => l.join left (s.apply (tree l.operand.node rest))

theorem Operand.spelled (x : Operand) : Spelled (.tier .primary x.node) x.tokens := by
  obtain ⟨mark, hmark, hparse⟩ := x.parsed
  have hproper : ∀ t ∈ x.tokens ++ [mark], Tokens.isProper t = true := by
    refine List.forall_mem_append.2 ⟨by simpa [Tokens.isProper] using x.proper, ?_⟩
    simp [Tokens.isProper, hmark]
  have h := (parse_eq_iff_spelled (List.concat_ne_nil mark x.tokens) []).1 hparse
  rw [Tokens.proper, List.takeWhile_eq_self_iff.2 hproper] at h
  exact h.primary_of_ended x.atom

theorem Sign.ofSign?_eq (s : Sign) : UnaryOp.ofSign? s.token = some s.op := by
  rcases s.stands with ⟨hkind, hop⟩ | ⟨hkind, hop⟩ <;> simp [UnaryOp.ofSign?, hkind, hop]

theorem Link.operator?_eq (l : Link) : Tier.factor.operator? l.token = some l.op := by
  rcases l.stands with ⟨hkind, hop⟩ | ⟨hkind, hop⟩ <;>
    simp [Tier.operator?, BinaryOp.ofToken?, hkind, hop, BinaryOp.tier]

theorem spelled_tree {left : Node} {xs : List Token} (h : Spelled (.tier .factor left) xs)
    (hleft : left.endsInSign = false) (links : List Link) :
    Spelled (.tier .factor (tree left links)) (xs ++ links.flatMap Link.tokens) := by
  induction links generalizing left xs with
  | nil => simpa [tree] using h
  | cons l rest ih =>
    have hoperand := l.operand.spelled
    have hsign := Node.endsInSign_of_isAtom l.operand.atom
    rw [tree, List.flatMap_cons]
    split
    · next hnone =>
      have hjoin : Spelled (.tier .factor (l.join left l.operand.node)) _ :=
        .join l.operator?_eq hleft h (hoperand.of_primary .power)
      simpa [Link.tokens, hnone] using ih hjoin hsign
    · next s hsome =>
      have hinner := ih (hoperand.of_primary .factor) hsign
      have hsigned := (Spelled.signed s.ofSign?_eq hinner).of_primary .power
      have hjoin : Spelled (.tier .factor (l.join left (s.apply _))) _ :=
        .join l.operator?_eq hleft h hsigned
      simpa [Link.tokens, hsome] using hjoin

def leftDepth : Node → Nat
  | .binary left _ _ _ => leftDepth left + 1
  | _ => 0

/-- How many links of a chain are joined to its first operand: no more behind one with a sign. -/
def reach : List Link → Nat
  | [] => 0
  | l :: rest => if l.sign?.isSome then 1 else reach rest + 1

theorem leftDepth_tree (left : Node) (links : List Link) :
    leftDepth (tree left links) = leftDepth left + reach links := by
  induction links generalizing left with
  | nil => rfl
  | cons l rest ih =>
    rw [tree, reach]
    split
    · next hnone => simp [ih, hnone, Link.join, leftDepth, Nat.add_assoc, Nat.add_comm 1]
    · next s hsome => simp [hsome, Link.join, leftDepth]

theorem leftDepth_foldl (left : Node) (links : List Link) :
    leftDepth (links.foldl Link.extend left) = leftDepth left + links.length := by
  induction links generalizing left with
  | nil => rfl
  | cons l rest ih =>
    rw [List.foldl_cons, ih, List.length_cons]
    simp [Link.extend, Link.join, leftDepth, Nat.add_assoc, Nat.add_comm 1]

theorem sign?_of_reach {links : List Link} (h : reach links = links.length) :
    ∀ l ∈ links.dropLast, l.sign? = none := by
  induction links with
  | nil => simp
  | cons l rest ih =>
    rw [reach, List.length_cons] at h
    split at h
    · -- a sign reaches over all that is left, which is nothing
      obtain rfl : rest = [] := List.length_eq_zero_iff.1 (by omega)
      simp
    · next hnone =>
      obtain _ | ⟨m, rest⟩ := rest
      · simp
      · rw [List.dropLast_cons_cons, List.forall_mem_cons]
        exact ⟨by simpa using hnone, ih (by omega)⟩

theorem tree_eq_foldl {links : List Link} (h : ∀ l ∈ links.dropLast, l.sign? = none)
    (left : Node) : tree left links = links.foldl Link.extend left := by
  induction links generalizing left with
  | nil => rfl
  | cons l rest ih =>
    obtain _ | ⟨m, rest⟩ := rest
    · cases hsign : l.sign? <;> simp [tree, Link.extend, hsign]
    · rw [List.dropLast_cons_cons, List.forall_mem_cons] at h
      obtain ⟨hnone, hrest⟩ := h
      have hextend : Link.extend left l = l.join left l.operand.node := by
        simp [Link.extend, hnone]
      rw [List.foldl_cons, hextend, ← ih hrest, tree, hnone]

theorem tree_eq_foldl_iff (left : Node) (links : List Link) :
    tree left links = links.foldl Link.extend left ↔ ∀ l ∈ links.dropLast, l.sign? = none := by
  refine ⟨fun h => sign?_of_reach ?_, fun h => tree_eq_foldl h left⟩
  have hdepth := congrArg leftDepth h
  rw [leftDepth_tree, leftDepth_foldl] at hdepth
  exact Nat.add_left_cancel hdepth

end Product

theorem Spelled.of_factor {n : Node} {ts : List Token} (h : Spelled (.tier .factor n) ts) :
    Spelled (.expression n) ts := by
  have hterm : Spelled (.tier .term n) ts := .operand (by decide) h
  have hcomparison : Spelled (.tier .comparison n) ts := .operand (by decide) hterm
  exact .logical (.operand (by decide) hcomparison)

theorem Tokens.proper_append_ends {ts ends : List Token} (hts : ∀ t ∈ ts, isProper t)
    (hends : ∀ t ∈ ends.head?, t.kind = .endOfInput) : proper (ts ++ ends) = ts := by
  obtain _ | ⟨stop, tail⟩ := ends
  · rw [List.append_nil]
    exact List.takeWhile_eq_self_iff.2 hts
  · rw [proper, List.takeWhile_append_of_pos hts]
    simp [isProper, hends stop rfl]

namespace Product

theorem parse_eq_tree (x : Operand) (links : List Link) {mark : Token}
    (hmark : mark.kind = .semicolon) {ends : List Token}
    (hends : ∀ t ∈ ends.head?, t.kind = .endOfInput) (ds : List Diagnostic) :
    parse (tokens x links ++ mark :: ends) ds = ⟨[tree x.node links], ds⟩ := by
  have hsign := Node.endsInSign_of_isAtom x.atom
  have hchain := spelled_tree (x.spelled.of_primary .factor) hsign links
  have hstatement : Spelled (.statements [tree x.node links]) (tokens x links ++ [mark]) :=
    .ended hchain.of_factor hmark
  have hne : tokens x links ++ mark :: ends ≠ [] :=
    List.append_ne_nil_of_right_ne_nil _ (List.cons_ne_nil _ _)
  rw [parse_eq_iff_spelled hne, List.append_cons,
    Tokens.proper_append_ends hstatement.isProper hends]
  exact hstatement

/-- A chain of `*` and `/` with a semicolon behind it is read as one statement without an issue. Its
operands fold to the left up to the first that has a sign, which takes all the rest of the chain; so
all of them do exactly if no operand but the last has one. -/
theorem parse_chain (x : Operand) (links : List Link) {mark : Token}
    (hmark : mark.kind = .semicolon) {ends : List Token}
    (hends : ∀ t ∈ ends.head?, t.kind = .endOfInput) (ds : List Diagnostic) :
    parse (tokens x links ++ mark :: ends) ds = ⟨[tree x.node links], ds⟩ ∧
      (tree x.node links = links.foldl Link.extend x.node ↔
        ∀ l ∈ links.dropLast, l.sign? = none) :=
  ⟨parse_eq_tree x links hmark hends ds, tree_eq_foldl_iff x.node links⟩

namespace Operand

def ofSpelled {n : Node} {ts : List Token} (h : Spelled (.tier .primary n) ts)
    (hn : n.isAtom = true) : Operand where
  tokens := ts
  node := n
  proper t ht := by simpa [Tokens.isProper] using h.isProper t ht
  parsed := by
    have hexpression : Spelled (.expression n) ts := .logical (h.of_primary .logical)
    have hstatements := hexpression.ended (show (Token.mark ";").kind = .semicolon from rfl)
    refine ⟨.mark ";", rfl, (parse_eq_iff_spelled (List.concat_ne_nil _ ts) []).2 ?_⟩
    rwa [Tokens.proper, List.takeWhile_eq_self_iff.2 hstatements.isProper]
  atom := hn

def number (token : Token) (h : token.kind = .number) : Operand := .ofSpelled (.literal h) rfl

def name (token : Token) (h : token.kind = .identifier) : Operand := .ofSpelled (.access h) rfl

def group (opening close : Token) {n : Node} {ts : List Token} (hopen : opening.kind = .leftParen)
    (h : Spelled (.expression n) ts) (hclose : close.kind = .rightParen) : Operand :=
  .ofSpelled (.group hopen h hclose) rfl

end Operand

def signedLinks : List Link :=
  let c : Spelled (.expression (.access (.mark "c"))) [.mark "c"] :=
    .logical ((Spelled.access rfl).of_primary .logical)
  [⟨.mark "/", .divide, .inr ⟨rfl, rfl⟩, some ⟨.mark "-", .negate, .inr ⟨rfl, rfl⟩⟩,
      .name (.mark "b") rfl⟩,
    ⟨.mark "*", .multiply, .inl ⟨rfl, rfl⟩, none,
      .group (.mark "(") (.mark ")") rfl c rfl⟩]

theorem parse_chain_signed_divisor :
    parse (tokens (.number (.mark "8") rfl) signedLinks ++
        [.mark ";", .endOfInput (.start "")]) [] =
      ⟨[.binary (.literal (.mark "8")) .divide
        (.unary .negate
          (.binary (.access (.mark "b")) .multiply (.group (.access (.mark "c")) .nowhere) .nowhere)
          .nowhere)
        .nowhere], []⟩ :=
  (parse_chain (.number (.mark "8") rfl) signedLinks rfl (by simp [Token.endOfInput]) []).1

/-- A sign in front of an operand that is not the last keeps a chain from folding to the left. -/
theorem parse_chain_ne_foldl :
    ¬ ∀ (x : Operand) (links : List Link) (mark : Token), 2 ≤ links.length →
      mark.kind = .semicolon →
        parse (tokens x links ++ [mark]) [] = ⟨[links.foldl Link.extend x.node], []⟩ := by
  intro h
  let x : Operand := .number (.mark "8") rfl
  have hfold := h x signedLinks (.mark ";") (by decide) rfl
  rw [parse_eq_tree x signedLinks rfl (by simp) []] at hfold
  have htree := (List.cons.inj (congrArg Parsed.program hfold)).1
  exact nomatch (tree_eq_foldl_iff _ _).1 htree _ List.mem_cons_self

end Product
end Scriptlet
