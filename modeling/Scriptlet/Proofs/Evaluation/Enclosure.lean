import Scriptlet.Proofs.Evaluation.Concatenation
import Scriptlet.Proofs.Syntax.Enclosure

/-! The run of a program with parentheses all over. Parentheses give what they hold, be it a value,
a signal or a failure, so the text of such a program does what the tree without them does. -/

namespace Scriptlet

theorem Node.evaluate_group (limit : Nat) (n : Node) (s : Span) :
    (Node.group n s).evaluate limit = n.evaluate limit := by
  funext m
  rw [Node.evaluate]

mutual

theorem Node.evaluate_enclosed (limit : Nat) (n : Node) :
    n.enclosed.evaluate limit = n.evaluate limit := by
  funext m
  cases n with
  | literal | access | breakLoop | continueLoop | missing => rw [Node.enclosed]
  | unary _ operand =>
    rw [Node.enclosed, Node.evaluate, Node.evaluate_group, operand.evaluate_enclosed limit,
      Node.evaluate]
  | binary left _ right =>
    rw [Node.enclosed, Node.evaluate, Node.evaluate_group, Node.evaluate_group,
      left.evaluate_enclosed limit, right.evaluate_enclosed limit, Node.evaluate]
  | group inner =>
    rw [Node.enclosed, Node.evaluate_group, Node.evaluate_group, Node.evaluate_group,
      inner.evaluate_enclosed limit]
  | declare _ value =>
    rw [Node.enclosed, Node.evaluate, Node.evaluate_group, value.evaluate_enclosed limit,
      Node.evaluate]
  | branch condition body | loop condition body =>
    rw [Node.enclosed, Node.evaluate, Node.evaluate_group, condition.evaluate_enclosed limit,
      evaluateAll_enclosed limit body, Node.evaluate]

theorem evaluateAll_enclosed (limit : Nat) (ns : List Node) :
    evaluateAll limit (enclosedAll ns) = evaluateAll limit ns := by
  funext m
  cases ns with
  | nil => rw [enclosedAll]
  | cons n ns =>
    rw [enclosedAll, evaluateAll, evaluateAll, n.evaluate_enclosed limit,
      evaluateAll_enclosed limit ns]

end

theorem Node.span_enclosed (n : Node) : n.enclosed.span = n.span := by
  cases n <;> rfl

theorem Program.run_enclosed (limit : Nat) (p : Program) (m : Machine) :
    Program.run limit p.enclosed m = p.run limit m := by
  induction p generalizing m with
  | nil => rfl
  | cons n ns ih =>
    have henclosed : Program.enclosed (n :: ns) = n.enclosed :: Program.enclosed ns := by
      rw [Program.enclosed, enclosedAll, Program.enclosed]
    simp only [henclosed, run, n.evaluate_enclosed limit, n.span_enclosed, ih]

def Evaluation.unplaced (e : Evaluation) : Evaluation := e.relocate fun _ => .start ""

theorem Program.run_unplaced {p q : Program} (h : p.map Node.unplaced = q.map Node.unplaced)
    (limit : Nat) (m : Machine) :
    (p.run limit m).map (fun (e, m) => (e.unplaced, m)) =
      (q.run limit m).map fun (e, m) => (e.unplaced, m) := by
  have hp := Program.run_relocate (fun _ => .start "") limit p m
  have hq := Program.run_relocate (fun _ => .start "") limit q m
  exact hp.symm.trans ((congrArg (Program.run limit · m) h).trans hq)

/-- With parentheses all over, the text of any tree that can be written down is read without an
issue, and within every bound its evaluation ends if that of the tree does, with the same values and
variables and with the same diagnostics, up to places. -/
theorem evaluate_enclosedText (p : Program) (hp : p.Writable) (source : String) :
    (parseText source p.enclosedText).diagnostics = [] ∧
      ∀ (limit : Nat) (env : Environment),
        (evaluateText limit source p.enclosedText env).map (fun (e, after) => (e.unplaced, after)) =
          ((Parsed.mk p []).evaluate limit env).map fun (e, after) => (e.unplaced, after) := by
  obtain ⟨q, hparse, hq⟩ := Program.exists_parseText_enclosedText hp source
  refine ⟨by rw [hparse], fun limit env => ?_⟩
  have hrun := Program.run_unplaced hq limit (.start env)
  rw [Program.run_enclosed] at hrun
  have hdirect : (Parsed.mk p []).evaluate limit env =
      (p.run limit (.start env)).map fun (e, m) => (e, m.environment) := rfl
  have hleave := congrArg (Option.map fun (e, m) => (e, m.environment)) hrun
  rw [Option.map_map, Option.map_map] at hleave
  rw [evaluateText_eq hparse, hdirect, Option.map_map, Option.map_map]
  exact hleave

/-- A product of a signed name, a power in the exponent of a power, and a sum with a declaration,
which no text without the parentheses gives, and a loop that a break in a branch ends. -/
theorem evaluate_enclosedText_nested :
    let x : Token := .mark "x"
    let two : Node := .literal (.mark "2")
    let power (left right : Node) : Node := .binary left .power right .nowhere
    let p : Program :=
      [.declare x two .nowhere,
        .binary (.unary .negate (.access x) .nowhere) .multiply
          (power (.access x) (power (.access x) two)) .nowhere,
        .loop (.access x) [.branch (.access x) [.breakLoop .nowhere] .nowhere] .nowhere,
        .binary two .add (.declare x two .nowhere) .nowhere]
    p.enclosedText = "declare x = ( 2 ) ; ( - ( x ) ) * ( ( x ) ^ ( ( x ) ^ ( 2 ) ) ) ; " ++
        "while ( ( x ) ) \x7b if ( ( x ) ) \x7b break ; \x7d ; \x7d ; " ++
        "( 2 ) + ( declare x = ( 2 ) ) ;" ∧
      p.Writable ∧ (parseText "s" p.enclosedText).diagnostics = [] ∧
      ∀ (limit : Nat) (env : Environment),
        (evaluateText limit "s" p.enclosedText env).map (fun (e, after) => (e.unplaced, after)) =
          ((Parsed.mk p []).evaluate limit env).map fun (e, after) => (e.unplaced, after) := by
  intro x two power p
  have hlexable (w : List Char) (hw : w ≠ [] ∧ Lexeme.longest w = w := by decide +kernel) :
      (Token.ofText w .nowhere).Lexable :=
    (Token.isWord_iff.1 (Token.isWord_ofText ⟨hw.1, hw.2⟩ .nowhere)).1
  have hx : x.Lexable := hlexable ['x']
  have htwo : Writable .expression two := .literal rfl (hlexable ['2'])
  have hname : Writable .expression (.access x) := .access rfl hx
  have hdeclare : Writable .expression (.declare x two .nowhere) := .declare .nowhere rfl hx htwo
  have hpower {left right : Node} (hleft : Writable .expression left)
      (hright : Writable .expression right) : Writable .expression (power left right) :=
    .binary .power .nowhere hleft hright
  have hstop : Writable .statement (.branch (.access x) [.breakLoop .nowhere] .nowhere) :=
    .expression (.branch .nowhere hname (List.forall_mem_singleton.2 (.breakLoop .nowhere)))
  have hp : p.Writable := by
    simp only [Program.Writable, p, List.forall_mem_cons]
    refine ⟨.expression hdeclare, .expression ?_, .expression ?_, .expression ?_, nofun⟩
    · exact .binary .multiply .nowhere (.unary .negate .nowhere hname)
        (hpower hname (hpower hname htwo))
    · exact .loop .nowhere hname (List.forall_mem_singleton.2 hstop)
    · exact .binary .add .nowhere htwo hdeclare
  exact ⟨by decide +kernel, hp, evaluate_enclosedText p hp "s"⟩

end Scriptlet
