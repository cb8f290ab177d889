import Scriptlet.Proofs.Evaluation.Bindings

/-! The names that a tree mentions. A run depends on no other variables and touches no other ones:
from environments that agree on those names it goes the same way, round by round, and leaves
environments that agree on them. -/

namespace Scriptlet

@[simp] def Node.name? : Node → Option String
  | access name => some name.text
  | declare name _ _ => some name.text
  | _ => none

def Node.Mentions (n : Node) (name : String) : Prop := ∃ m ∈ n.nodes, m.name? = some name

def Program.Mentions (p : Program) (name : String) : Prop := ∃ m ∈ p.nodes, m.name? = some name

def Environment.AgreeOn (names : String → Prop) (env other : Environment) : Prop :=
  ∀ name, names name →
    env.lookup? name = other.lookup? name ∧ env.isLocked name = other.isLocked name

structure Machine.AgreeOn (names : String → Prop) (m other : Machine) : Prop where
  environment : m.environment.AgreeOn names other.environment
  scopes_eq : m.scopes = other.scopes

namespace Environment
variable {names : String → Prop} {env other : Environment}

theorem AgreeOn.bind (h : env.AgreeOn names other) (name : String) (v : Value) (locked : Bool) :
    (env.bind name v locked).AgreeOn names (other.bind name v locked) := by
  intro asked hasked
  rw [lookup?_bind, lookup?_bind, isLocked_bind, isLocked_bind, (h asked hasked).1,
    (h asked hasked).2]
  exact ⟨rfl, rfl⟩

theorem Assigns.agreeOn {ns : List Node} (h : Assigns ns env other)
    (hnames : ∀ m ∈ ns, ∀ name, m.name? = some name → names name) :
    env.AgreeOn (¬ names ·) other := by
  intro name hname
  refine ⟨?_, (h.isLocked_eq name).symm⟩
  rcases h.lookup?_eq name with heq | ⟨-, -, token, value, s, hmem, rfl⟩
  · exact heq.symm
  · exact absurd (hnames _ hmem _ rfl) hname

end Environment

def InStep {α : Type} (names : String → Prop) (a b : Option (α × Machine)) : Prop :=
  Option.Rel (fun r s => r.1 = s.1 ∧ r.2.AgreeOn names s.2) a b

namespace InStep
variable {α β : Type} {names : String → Prop} {a b : Option (α × Machine)}

theorem elim (h : InStep names a b) :
    a = none ∧ b = none ∨
      ∃ x m other, a = some (x, m) ∧ b = some (x, other) ∧ m.AgreeOn names other := by
  cases h with
  | none => exact .inl ⟨rfl, rfl⟩
  | @some r s hends =>
    obtain ⟨x, m⟩ := r
    obtain ⟨y, other⟩ := s
    obtain ⟨rfl, hagree⟩ := hends
    exact .inr ⟨x, m, other, rfl, rfl, hagree⟩

theorem map (h : InStep names a b) (f : α → β) :
    InStep names (a.map fun (x, m) => (f x, m)) (b.map fun (x, m) => (f x, m)) := by
  obtain ⟨rfl, rfl⟩ | ⟨x, m, other, rfl, rfl, hagree⟩ := h.elim
  · exact .none
  · exact .some ⟨rfl, hagree⟩

end InStep

def SeesOnly (names : String → Prop) (run : Machine → Run) : Prop :=
  ∀ m other, m.AgreeOn names other → InStep names (run m) (run other)

namespace SeesOnly
variable {names : String → Prop} {run body : Machine → Run}

theorem ended (names : String → Prop) (o : Outcome) : SeesOnly names fun m => some (o, m) :=
  fun _ _ h => .some ⟨rfl, h⟩

theorem fail (names : String → Prop) (s : Span) (message : String) (help : Option String) :
    SeesOnly names (·.fail s message help) := by
  intro m other h
  have hdiagnostic : m.diagnostic s message help = other.diagnostic s message help := by
    rw [Machine.diagnostic, Machine.diagnostic, Machine.context, Machine.context, h.scopes_eq]
  exact .some ⟨congrArg Outcome.fails hdiagnostic, h⟩

theorem finish (names : String → Prop) (s : Span) (result : Except OperationError Value) :
    SeesOnly names (·.finish s result) := by
  cases result with
  | ok v => exact ended names (.value v)
  | error e => exact fail names s e.message none

theorem access {name : String} (hname : names name) (s : Span) :
    SeesOnly names (·.access name s) := by
  intro m other h
  show InStep names (m.access name s) (other.access name s)
  unfold Machine.access
  rw [(h.environment name hname).1]
  cases other.environment.lookup? name with
  | some v => exact ended names (.value v) m other h
  | none => exact fail names s _ _ m other h

theorem declare {name : String} (hname : names name) (v : Value) (s : Span) :
    SeesOnly names (·.declare name v s) := by
  intro m other h
  show InStep names (m.declare name v s) (other.declare name v s)
  unfold Machine.declare Environment.declare
  rw [(h.environment name hname).2]
  by_cases hlocked : other.environment.isLocked name = true
  · simp only [if_pos hlocked]
    exact fail names s _ none m other h
  · simp only [if_neg hlocked]
    exact .some ⟨rfl, h.environment.bind name _ _, h.scopes_eq⟩

theorem ite (p : Prop) [Decidable p] (hrun : SeesOnly names run) (hbody : SeesOnly names body) :
    SeesOnly names fun m => if p then run m else body m := by
  by_cases hp : p
  · simp only [if_pos hp]
    exact hrun
  · simp only [if_neg hp]
    exact hbody

theorem andThen {next : Value → Machine → Run} (hrun : SeesOnly names run)
    (hnext : ∀ v, SeesOnly names (next v)) : SeesOnly names fun m => (run m).andThen next := by
  intro m other h
  show InStep names ((run m).andThen next) ((run other).andThen next)
  obtain ⟨ha, hb⟩ | ⟨o, m₁, other₁, ha, hb, hagree⟩ := (hrun m other h).elim
  · rw [ha, hb]
    exact .none
  · rw [ha, hb, Run.andThen_some, Run.andThen_some]
    cases o.operand? with
    | some v => exact hnext v m₁ other₁ hagree
    | none => exact .some ⟨rfl, hagree⟩

theorem within (scope : Scope) (hbody : SeesOnly names body) :
    SeesOnly names (·.within scope body) := by
  intro m other h
  show InStep names (m.within scope body) (other.within scope body)
  have henter : (m.enter scope).AgreeOn names (other.enter scope) :=
    ⟨h.environment, congrArg (List.cons scope) h.scopes_eq⟩
  unfold Machine.within
  obtain ⟨ha, hb⟩ | ⟨o, m₁, other₁, ha, hb, hagree⟩ := (hbody _ _ henter).elim
  · rw [ha, hb]
    exact .none
  · rw [ha, hb]
    exact .some ⟨rfl, hagree.environment, congrArg List.tail hagree.scopes_eq⟩

theorem repeatWhile (hrun : SeesOnly names run) (hbody : SeesOnly names body) (rounds : Nat) :
    SeesOnly names (repeatWhile run body rounds) := by
  induction rounds with
  | zero => exact fun _ _ _ => .none
  | succ rounds ih =>
    refine andThen hrun fun v => ite _ (fun m other h => ?_) (ended names .nothing)
    obtain ⟨ha, hb⟩ | ⟨o, m₁, other₁, ha, hb, hagree⟩ := (hbody m other h).elim
    · rw [ha, hb]
      exact .none
    · rw [ha, hb]
      cases o with
      | breaks | fails => exact .some ⟨rfl, hagree⟩
      | value | nothing | continues => exact ih m₁ other₁ hagree

end SeesOnly

mutual

theorem Node.seesOnly (limit : Nat) (names : String → Prop) :
    ∀ n : Node, (∀ m ∈ n.nodes, ∀ name, m.name? = some name → names name) →
      SeesOnly names (n.evaluate limit)
  | .literal token, _ => by
    simp only [Node.evaluate]
    cases token.number? with
    | some x => exact .ended names _
    | none => exact .fail names _ _ none
  | .access name, h => .access (h _ (Node.self_mem_nodes _) _ rfl) name.span
  | .unary op operand s, h => by
    rw [Node.nodes_unary, List.forall_mem_cons] at h
    exact (operand.seesOnly limit names h.2).andThen fun v => .finish names s _
  | .binary left op right s, h => by
    rw [Node.nodes_binary, List.forall_mem_cons, List.forall_mem_append] at h
    refine (left.seesOnly limit names h.2.1).andThen fun l => ?_
    exact (right.seesOnly limit names h.2.2).andThen fun r => .finish names s _
  | .group inner _, h => by
    rw [Node.nodes_group, List.forall_mem_cons] at h
    exact inner.seesOnly limit names h.2
  | .declare name value s, h => by
    rw [Node.nodes_declare, List.forall_mem_cons] at h
    exact (value.seesOnly limit names h.2).andThen fun v => .declare (h.1 _ rfl) v s
  | .branch condition body _, h => by
    rw [Node.nodes_branch, List.forall_mem_cons, List.forall_mem_append] at h
    refine (condition.seesOnly limit names h.2.1).andThen fun v => ?_
    exact .ite _ (.within .branch (evaluateAll_seesOnly limit names body h.2.2)) (.ended names _)
  | .loop condition body _, h => by
    rw [Node.nodes_loop, List.forall_mem_cons, List.forall_mem_append] at h
    have hbody := evaluateAll_seesOnly limit names body h.2.2
    exact (condition.seesOnly limit names h.2.1).repeatWhile (.within .loop hbody) limit
  | .breakLoop _, _ | .continueLoop _, _ | .missing _, _ => .ended names _

theorem evaluateAll_seesOnly (limit : Nat) (names : String → Prop) :
    ∀ ns : List Node, (∀ m ∈ Program.nodes ns, ∀ name, m.name? = some name → names name) →
      SeesOnly names (evaluateAll limit ns)
  | [], _ => .ended names .nothing
  | n :: ns, h => by
    rw [Program.nodes_cons, List.forall_mem_append] at h
    have hrest := evaluateAll_seesOnly limit names ns h.2
    exact (n.seesOnly limit names h.1).andThen fun _ => hrest

end

theorem Program.run_inStep (limit : Nat) {names : String → Prop} {p : Program}
    (h : ∀ m ∈ p.nodes, ∀ name, m.name? = some name → names name) {m other : Machine}
    (hm : m.AgreeOn names other) : InStep names (p.run limit m) (p.run limit other) := by
  induction p generalizing m other with
  | nil => exact .some ⟨rfl, hm⟩
  | cons root roots ih =>
    simp only [nodes_cons, List.forall_mem_append] at h
    unfold run
    have hroot := root.seesOnly limit names h.1 m other hm
    obtain ⟨ha, hb⟩ | ⟨o, m₁, other₁, ha, hb, hagree⟩ := hroot.elim
    · rw [ha, hb]
      exact .none
    · rw [ha, hb]
      have hstray (word : Keyword) :
          m₁.straySignal word root.span = other₁.straySignal word root.span := by
        simp only [Machine.straySignal, Machine.diagnostic, Machine.context, hagree.scopes_eq]
      have hrest := ih h.2 hagree
      cases o with
      | value v => exact hrest.map fun later => { later with values := v :: later.values }
      | nothing => exact hrest
      | breaks | continues =>
        simp only [hstray]
        exact .some ⟨rfl, hagree⟩
      | fails d => exact .some ⟨rfl, hagree⟩

/-- Both runs are given up, or both end with the same result. The machines that they leave agree on
such names, and every other name is in each as its run found it. -/
def RunAlike {α : Type} (names : String → Prop) (m other : Machine)
    (a b : Option (α × Machine)) : Prop :=
  Option.Rel (fun r s => r.1 = s.1 ∧ r.2.AgreeOn names s.2 ∧
    m.environment.AgreeOn (¬ names ·) r.2.environment ∧
    other.environment.AgreeOn (¬ names ·) s.2.environment) a b

theorem InStep.runAlike {α : Type} {names : String → Prop} {m other : Machine}
    {a b : Option (α × Machine)} (h : InStep names a b)
    (ha : ∀ x m', a = some (x, m') → m.environment.AgreeOn (¬ names ·) m'.environment)
    (hb : ∀ x m', b = some (x, m') → other.environment.AgreeOn (¬ names ·) m'.environment) :
    RunAlike names m other a b := by
  obtain ⟨rfl, rfl⟩ | ⟨x, m₁, other₁, rfl, rfl, hagree⟩ := h.elim
  · exact .none
  · exact .some ⟨rfl, hagree, ha x m₁ rfl, hb x other₁ rfl⟩

/-- A tree sees and touches only the names that it mentions. On machines that agree on those, inside
the same blocks, its runs end within the same bounds and with the same outcome, diagnostics
included, and leave machines that agree on them; every other name keeps its binding and its lock.
So does a program. -/
theorem runs_alike_on_mentioned_names :
    (∀ (n : Node) (limit : Nat) (m other : Machine), m.AgreeOn n.Mentions other →
      RunAlike n.Mentions m other (n.evaluate limit m) (n.evaluate limit other)) ∧
    ∀ (p : Program) (limit : Nat) (m other : Machine), m.AgreeOn p.Mentions other →
      RunAlike p.Mentions m other (p.run limit m) (p.run limit other) := by
  constructor
  · intro n limit m other h
    have hnames : ∀ x ∈ n.nodes, ∀ name, x.name? = some name → n.Mentions name :=
      fun x hx _ hname => ⟨x, hx, hname⟩
    have hkeeps (start : Machine) (o : Outcome) (m' : Machine)
        (hrun : n.evaluate limit start = some (o, m')) :
        start.environment.AgreeOn (¬ n.Mentions ·) m'.environment := by
      obtain ⟨_, rfl, hruns⟩ := n.realizes limit start.scopes start.environment o m' hrun
      exact hruns.assigns.agreeOn hnames
    exact (n.seesOnly limit n.Mentions hnames m other h).runAlike (hkeeps m) (hkeeps other)
  · intro p limit m other h
    have hnames : ∀ x ∈ p.nodes, ∀ name, x.name? = some name → p.Mentions name :=
      fun x hx _ hname => ⟨x, hx, hname⟩
    have hkeeps (start : Machine) (e : Evaluation) (m' : Machine)
        (hrun : p.run limit start = some (e, m')) :
        start.environment.AgreeOn (¬ p.Mentions ·) m'.environment :=
      (Program.run_assigns hrun).agreeOn hnames
    exact (Program.run_inStep limit hnames h).runAlike (hkeeps m) (hkeeps other)

/-- `while (x) { declare y = x; declare x = null; }` goes round once, whatever `z` is. -/
theorem runs_alike_beside_leftover :
    let x : Token := ⟨.identifier, "x", none, .nowhere⟩
    let y : Token := ⟨.identifier, "y", none, .nowhere⟩
    let null : Token := ⟨.identifier, "null", none, .nowhere⟩
    let n : Node := .loop (.access x)
      [.declare y (.access x) .nowhere, .declare x (.access null) .nowhere] .nowhere
    let env := Environment.initial.bind "x" (.number (.ofInt 1)) false
    let m := Machine.start env
    let other := Machine.start (env.bind "z" (.boolean true) true)
    let after := (env.bind "y" (.number (.ofInt 1)) false).bind "x" .null false
    (m.AgreeOn n.Mentions other ∧ n.evaluate 2 m = some (.nothing, .start after)) ∧
      ∃ m', n.evaluate 2 other = some (.nothing, m') ∧ m'.environment.isLocked "z" = true ∧
        after.AgreeOn n.Mentions m'.environment := by
  intro x y null n env m other after
  have hunmentioned : ¬ n.Mentions "z" := by
    simp [Node.Mentions, n, x, y, null]
  have hagree : m.AgreeOn n.Mentions other := by
    refine ⟨fun name hname => ?_, rfl⟩
    have hne : name ≠ "z" := by
      rintro rfl
      exact hunmentioned hname
    simp [m, other, Machine.start, Environment.lookup?_bind env, Environment.isLocked_bind env, hne]
  have hrun : n.evaluate 2 m = some (.nothing, .start after) := rfl
  have halike := runs_alike_on_mentioned_names.1 n 2 m other hagree
  rw [hrun] at halike
  rcases hother : n.evaluate 2 other with _ | ⟨o, m'⟩ <;> rw [hother] at halike <;> cases halike
  next hends =>
    obtain ⟨rfl, hafter, -, hkept⟩ := hends
    exact ⟨⟨hagree, hrun⟩, m', rfl, ((hkept "z" hunmentioned).2).symm, hafter.environment⟩

end Scriptlet
