import Scriptlet.Proofs.Syntax.Concatenation
import Scriptlet.Proofs.Syntax.Nesting
import Scriptlet.Proofs.Syntax.RoundTrip
import Scriptlet.Proofs.Text.LeadingRun
import Scriptlet.Proofs.Token.Separation

/-! What the printed tree tells of a program. A row shows how deep a node stands, of which kind it
is and, for some kinds, a text. The text falls apart into its rows since no word of a program has a
line break in it. The rows belong to one forest alone: those below a node are deeper than it, and
the row that comes behind them is not. -/

namespace Scriptlet

structure RowLabel where
  depth : Nat
  kindName : String
  detail? : Option String

namespace RowLabel

def tail (l : RowLabel) : List Char := l.detail?.elim [] fun detail => ' ' :: detail.toList

def chars (l : RowLabel) : List Char :=
  List.replicate (2 * l.depth) ' ' ++ (l.kindName.toList ++ l.tail)

theorem head?_tail (l : RowLabel) : ∀ c ∈ l.tail.head?, c = ' ' := by
  obtain ⟨d, name, _ | detail⟩ := l <;> simp [tail]

theorem detail?_eq_of_tail {a b : RowLabel} (h : a.tail = b.tail) : a.detail? = b.detail? := by
  obtain ⟨d, name, _ | detail⟩ := a <;> obtain ⟨d', name', _ | detail'⟩ := b <;>
    simp_all [tail, String.toList_inj]

structure Named (l : RowLabel) : Prop where
  ne_nil : l.kindName.toList ≠ []
  isAlpha : ∀ c ∈ l.kindName.toList, c.isAlpha = true

theorem eq_of_chars {a b : RowLabel} (ha : a.Named) (hb : b.Named) (h : a.chars = b.chars) :
    a = b := by
  have hindent (d : Nat) : ∀ c ∈ List.replicate (2 * d) ' ', (c == ' ') = true := by
    intro c hc
    rw [List.eq_of_mem_replicate hc]
    rfl
  have hname {l : RowLabel} (hl : l.Named) :
      ∀ c ∈ (l.kindName.toList ++ l.tail).head?, (c == ' ') = false := by
    obtain ⟨c, cs, hcs⟩ := List.exists_cons_of_ne_nil hl.ne_nil
    have halpha := hl.isAlpha c (by simp [hcs])
    have hne : c ≠ ' ' := by
      rintro rfl
      exact absurd halpha (by decide)
    simpa [hcs] using hne
  have htail (l : RowLabel) : ∀ c ∈ l.tail.head?, c.isAlpha = false := by
    intro c hc
    rw [l.head?_tail c hc]
    rfl
  -- the blanks go up to the name, and the name up to the first sign that is no letter
  obtain ⟨hblanks, hrest⟩ :=
    LeadingRun.append_inj_of_head? (hindent _) (hindent _) (hname ha) (hname hb) h
  obtain ⟨hkind, hdetail⟩ :=
    LeadingRun.append_inj_of_head? ha.isAlpha hb.isAlpha (htail a) (htail b) hrest
  have hdepth : a.depth = b.depth := by
    have hlength := congrArg List.length hblanks
    simp only [List.length_replicate] at hlength
    omega
  obtain ⟨d, name, detail⟩ := a
  obtain ⟨d', name', detail'⟩ := b
  simp only [RowLabel.mk.injEq]
  exact ⟨hdepth, String.toList_inj.1 hkind, detail?_eq_of_tail hdetail⟩

theorem eq_of_flatMap_chars {as bs : List RowLabel} (has : ∀ a ∈ as, a.Named ∧ '\n' ∉ a.chars)
    (hbs : ∀ b ∈ bs, b.Named ∧ '\n' ∉ b.chars)
    (h : as.flatMap (·.chars ++ ['\n']) = bs.flatMap (·.chars ++ ['\n'])) : as = bs := by
  induction as generalizing bs with
  | nil =>
    cases bs with
    | nil => rfl
    | cons b bs => simp at h
  | cons a as ih =>
    cases bs with
    | nil => simp at h
    | cons b bs =>
      obtain ⟨⟨ha, hbreak⟩, has⟩ := List.forall_mem_cons.1 has
      obtain ⟨⟨hb, hbreak'⟩, hbs⟩ := List.forall_mem_cons.1 hbs
      simp only [List.flatMap_cons, List.append_assoc, List.singleton_append] at h
      have hinside {cs : List Char} (hcs : '\n' ∉ cs) : ∀ c ∈ cs, (c != '\n') = true := by
        intro c hc
        simpa using ne_of_mem_of_not_mem hc hcs
      obtain ⟨hchars, hrest⟩ := LeadingRun.append_inj_of_head? (hinside hbreak) (hinside hbreak')
        (by simp) (by simp) h
      rw [eq_of_chars ha hb hchars, ih has hbs (List.cons.inj hrest).2]

end RowLabel

namespace OutlineRow

def label (row : OutlineRow) : RowLabel := ⟨row.depth, row.node.kindName, row.node.detail?⟩

theorem toList_line (row : OutlineRow) : row.line.toList = row.label.chars ++ ['\n'] := by
  obtain ⟨d, n⟩ := row
  cases hdetail : n.detail? <;>
    simp [line, label, RowLabel.chars, RowLabel.tail, hdetail, toString]

theorem named_label (row : OutlineRow) : row.label.Named := by
  obtain ⟨d, n⟩ := row
  constructor <;> cases n <;> simp [label, Node.kindName]

end OutlineRow

structure Token.Legible (t : Token) : Prop where
  unplaced_eq : t.unplaced = .mark t.text
  oneLine : '\n' ∉ t.text.toList

def Node.Legible (n : Node) : Prop := ∀ t ∈ n.token?, t.Legible

theorem Token.IsWord.legible {t : Token} (h : t.IsWord) : t.Legible := by
  refine ⟨h.unplaced_eq, fun hbreak => ?_⟩
  rw [← h.word.longest_eq] at hbreak
  exact absurd (Lexeme.isBlank_of_mem_longest hbreak) (by decide)

theorem Token.legible_supplied (s : Span) : (Token.mk .identifier "" none s).Legible :=
  ⟨rfl, List.not_mem_nil⟩

theorem Grammar.local_legible {stop : Token} {us : List Token} (hus : ∀ t ∈ us, t.IsWord)
    (is : List Diagnostic) : Local stop us is Node.Legible where
  tokenless n h := by
    intro t ht
    rw [h] at ht
    cases ht
  literal t h _ := by
    rintro _ ⟨⟩
    exact (hus t h).legible
  access t h _ := by
    rintro _ ⟨⟩
    exact (hus t h).legible
  declare h hts _ _ _ := by
    rintro _ ⟨⟩
    cases h with
    | met => exact (hus _ (hts List.mem_cons_self)).legible
    | unmet => exact Token.legible_supplied _

theorem isWord_of_mem_proper_lex {source text : String} {t : Token}
    (h : t ∈ Tokens.proper (lex source text).tokens) : t.IsWord := by
  have hkind : t.kind ≠ .endOfInput := by
    simpa [Tokens.isProper] using List.mem_takeWhile_imp h
  exact Token.isWord_iff.2 ⟨⟨source, text, t, (List.takeWhile_prefix _).subset h, rfl⟩, hkind⟩

theorem legible_of_mem_parseText {source text : String} {n : Node}
    (hn : n ∈ (parseText source text).program.nodes) : n.Legible := by
  rw [parseText, parse_eq (lex_tokens_ne_nil source text)] at hn
  have hword : ∀ t ∈ Tokens.proper (lex source text).tokens, t.IsWord :=
    fun _ => isWord_of_mem_proper_lex
  exact (Grammar.local_legible hword _).of_reads (reads_proper _) (List.Subset.refl _)
    (List.Subset.refl _) (List.forall_mem_nil _) n hn

namespace UnaryOp

def ofSymbol? (symbol : String) : Option UnaryOp := all.find? (·.symbol = symbol)

@[simp] theorem ofSymbol?_symbol (op : UnaryOp) : ofSymbol? op.symbol = some op := by
  cases op <;> rfl

end UnaryOp

namespace BinaryOp

def ofSymbol? (symbol : String) : Option BinaryOp := all.find? (·.symbol = symbol)

@[simp] theorem ofSymbol?_symbol (op : BinaryOp) : ofSymbol? op.symbol = some op := by
  cases op <;> rfl

end BinaryOp

namespace Node

def ofRow? : String → Option String → List Node → Option Node
  | "Literal", some text, [] => some (.literal (.mark text))
  | "VarAccess", some text, [] => some (.access (.mark text))
  | "Unary", some symbol, [operand] =>
    (UnaryOp.ofSymbol? symbol).map fun op => .unary op operand .nowhere
  | "Binary", some symbol, [left, right] =>
    (BinaryOp.ofSymbol? symbol).map fun op => .binary left op right .nowhere
  | "Parenthesized", none, [inner] => some (.group inner .nowhere)
  | "VarDeclare", some text, [value] => some (.declare (.mark text) value .nowhere)
  | "If", none, condition :: body => some (.branch condition body .nowhere)
  | "While", none, condition :: body => some (.loop condition body .nowhere)
  | "Break", none, [] => some (.breakLoop .nowhere)
  | "Continue", none, [] => some (.continueLoop .nowhere)
  | "Errored", none, [] => some (.missing .nowhere)
  | _, _, _ => none

theorem children_unplaced (n : Node) : n.unplaced.children = n.children.map unplaced := by
  cases n with
  | branch condition body s => simp [unplaced_branch, children]
  | loop condition body s => simp [unplaced_loop, children]
  | _ => rfl

theorem ofRow?_eq {n : Node} (h : n.Legible) :
    ofRow? n.kindName n.detail? (n.children.map unplaced) = some n.unplaced := by
  cases n with
  | literal t | access t | declare t =>
    have ht : .mark t.text = t.unplaced := (h t rfl).unplaced_eq.symm
    simp only [kindName, detail?, children, List.map_cons, List.map_nil, ofRow?, ht]
    rfl
  | unary | binary | group | branch | loop =>
    simp [ofRow?, kindName, detail?, children, unplaced_unary, unplaced_binary, unplaced_group,
      unplaced_branch, unplaced_loop]
  | breakLoop | continueLoop | missing => rfl

end Node

mutual

theorem Node.children_induction {P : List Node → Prop} (nil : P [])
    (cons : ∀ n ns, P n.children → P ns → P (n :: ns)) : ∀ n : Node, P n.children
  | .literal _ | .access _ | .breakLoop _ | .continueLoop _ | .missing _ => nil
  | .unary _ inner _ | .group inner _ | .declare _ inner _ =>
    cons inner [] (inner.children_induction nil cons) nil
  | .binary left _ right _ =>
    cons left [right] (left.children_induction nil cons)
      (cons right [] (right.children_induction nil cons) nil)
  | .branch condition body _ | .loop condition body _ =>
    cons condition body (condition.children_induction nil cons) (forest_induction nil cons body)

theorem forest_induction {P : List Node → Prop} (nil : P [])
    (cons : ∀ n ns, P n.children → P ns → P (n :: ns)) : ∀ ns : List Node, P ns
  | [] => nil
  | n :: ns => cons n ns (n.children_induction nil cons) (forest_induction nil cons ns)

end

def rowLabels (depth : Nat) (ns : List Node) : List RowLabel :=
  (outlineAll depth ns).map OutlineRow.label

@[simp] theorem rowLabels_nil (d : Nat) : rowLabels d [] = [] := rfl

@[simp] theorem rowLabels_cons (d : Nat) (n : Node) (ns : List Node) :
    rowLabels d (n :: ns) =
      ⟨d, n.kindName, n.detail?⟩ :: (rowLabels (d + 1) n.children ++ rowLabels d ns) := by
  have houtline : n.outline d = ⟨d, n⟩ :: outlineAll (d + 1) n.children := by
    cases n <;> simp [Node.outline, outlineAll, Node.children]
  rw [rowLabels, outlineAll, houtline, List.map_append, List.map_cons]
  rfl

theorem rowLabels_unplaced (d : Nat) (ns : List Node) :
    rowLabels d (ns.map Node.unplaced) = rowLabels d ns := by
  induction ns using forest_induction generalizing d with
  | nil => rfl
  | cons n ns ihchildren ih =>
    have hkind : n.unplaced.kindName = n.kindName := by cases n <;> rfl
    have hdetail : n.unplaced.detail? = n.detail? := by cases n <;> rfl
    rw [List.map_cons, rowLabels_cons, rowLabels_cons, hkind, hdetail, n.children_unplaced,
      ihchildren, ih]

def Above (d : Nat) (rows : List RowLabel) : Prop := ∀ row ∈ rows.head?, row.depth < d

theorem Above.of_rowLabels_append {d : Nat} {ns : List Node} {rows : List RowLabel}
    (h : Above d (rowLabels d ns ++ rows)) : ns = [] := by
  cases ns with
  | nil => rfl
  | cons n ns =>
    rw [rowLabels_cons] at h
    exact absurd (h _ rfl) (Nat.lt_irrefl _)

theorem Above.rowLabels_append {d : Nat} {rows : List RowLabel} (h : Above d rows)
    (ns : List Node) : Above (d + 1) (rowLabels d ns ++ rows) := by
  cases ns with
  | nil => exact fun row hrow => Nat.lt_succ_of_lt (h row hrow)
  | cons n ns =>
    rw [rowLabels_cons]
    rintro _ ⟨⟩
    exact Nat.lt_succ_self d

theorem Above.nil (d : Nat) : Above d [] := nofun

/-- A forest is known from its rows up to places, and so is where its rows end: the row behind them
is less deep than its roots. -/
theorem unplaced_eq_of_rowLabels {ns ms : List Node} {d : Nat} {xs ys : List RowLabel}
    (hns : ∀ n ∈ Program.nodes ns, n.Legible) (hms : ∀ m ∈ Program.nodes ms, m.Legible)
    (hxs : Above d xs) (hys : Above d ys) (h : rowLabels d ns ++ xs = rowLabels d ms ++ ys) :
    ns.map Node.unplaced = ms.map Node.unplaced ∧ xs = ys := by
  induction ns using forest_induction generalizing ms d xs ys with
  | nil =>
    rw [rowLabels_nil, List.nil_append] at h
    obtain rfl : ms = [] := Above.of_rowLabels_append (h ▸ hxs)
    exact ⟨rfl, h⟩
  | cons n ns ihchildren ih =>
    obtain _ | ⟨m, ms⟩ := ms
    · rw [rowLabels_nil, List.nil_append] at h
      exact absurd (Above.of_rowLabels_append (h ▸ hys)) (List.cons_ne_nil n ns)
    · simp only [Program.nodes_cons, n.nodes_eq, m.nodes_eq, List.cons_append,
        List.forall_mem_cons, List.forall_mem_append] at hns hms
      simp only [rowLabels_cons, List.cons_append, List.append_assoc, List.cons.injEq,
        RowLabel.mk.injEq, true_and] at h
      obtain ⟨⟨hkind, hdetail⟩, hrows⟩ := h
      -- the rows below a root end where one is no deeper than the root
      obtain ⟨hchildren, hbehind⟩ := ihchildren hns.2.1 hms.2.1 (hxs.rowLabels_append ns)
        (hys.rowLabels_append ms) hrows
      obtain ⟨hrest, hend⟩ := ih hns.2.2 hms.2.2 hxs hys hbehind
      have hroot : some n.unplaced = some m.unplaced := by
        rw [← Node.ofRow?_eq hns.1, ← Node.ofRow?_eq hms.1, hkind, hdetail, hchildren]
      rw [List.map_cons, List.map_cons, Option.some.inj hroot, hrest]
      exact ⟨rfl, hend⟩

theorem OutlineRow.lineBreak_not_mem_chars {row : OutlineRow} (h : row.node.Legible) :
    '\n' ∉ row.label.chars := by
  have hkind : '\n' ∉ row.node.kindName.toList := fun hbreak =>
    absurd (row.named_label.isAlpha _ hbreak) (by decide)
  have hdetail : ∀ detail ∈ row.node.detail?, '\n' ∉ detail.toList := by
    obtain ⟨d, n⟩ := row
    cases n with
    | literal t | access t | declare t =>
      rintro _ ⟨⟩
      exact (h t rfl).oneLine
    | unary op =>
      rintro _ ⟨⟩
      cases op <;> decide
    | binary _ op =>
      rintro _ ⟨⟩
      cases op <;> decide
    | _ => exact nofun
  have htail : '\n' ∉ row.label.tail := by
    cases heq : row.node.detail? with
    | none => simp [label, RowLabel.tail, heq]
    | some detail => simpa [label, RowLabel.tail, heq] using hdetail detail heq
  have hindent : '\n' ∉ List.replicate (2 * row.label.depth) ' ' := fun hbreak =>
    absurd (List.eq_of_mem_replicate hbreak) (by decide)
  simp only [RowLabel.chars, List.mem_append, not_or]
  exact ⟨hindent, hkind, htail⟩

theorem Program.toList_tree (p : Program) :
    p.tree.toList = (rowLabels 0 p).flatMap (·.chars ++ ['\n']) := by
  rw [tree, String.toList_join, List.flatMap_map, rowLabels, List.flatMap_map]
  simp only [OutlineRow.toList_line]
  rfl

theorem Program.readable_rowLabels {p : Program} (hp : ∀ n ∈ p.nodes, n.Legible) :
    ∀ l ∈ rowLabels 0 p, l.Named ∧ '\n' ∉ l.chars := by
  intro l hl
  obtain ⟨row, hrow, rfl⟩ := List.mem_map.1 hl
  exact ⟨row.named_label, OutlineRow.lineBreak_not_mem_chars (hp _ (List.mem_map_of_mem hrow))⟩

theorem Program.tree_eq_iff {p q : Program} (hp : ∀ n ∈ p.nodes, n.Legible)
    (hq : ∀ n ∈ q.nodes, n.Legible) :
    p.tree = q.tree ↔ p.map Node.unplaced = q.map Node.unplaced := by
  rw [← String.toList_inj, toList_tree, toList_tree]
  constructor
  · intro htext
    have hlabels : rowLabels 0 p = rowLabels 0 q :=
      RowLabel.eq_of_flatMap_chars (readable_rowLabels hp) (readable_rowLabels hq) htext
    have hrows : rowLabels 0 p ++ [] = rowLabels 0 q ++ [] := by rw [hlabels]
    exact (unplaced_eq_of_rowLabels hp hq (Above.nil 0) (Above.nil 0) hrows).1
  · intro hprograms
    rw [← rowLabels_unplaced, hprograms, rowLabels_unplaced]

/-- The printed tree determines the program. Two texts, with whatever defects, have the same tree
printed if and only if what is read of them differs in its places at most: shape, operators, token
texts and literals are the same. -/
theorem tree_parseText_eq_iff (source text source' text' : String) :
    (parseText source text).program.tree = (parseText source' text').program.tree ↔
      (parseText source text).program.map Node.unplaced =
        (parseText source' text').program.map Node.unplaced :=
  Program.tree_eq_iff (fun _ => legible_of_mem_parseText) fun _ => legible_of_mem_parseText

end Scriptlet
