import Scriptlet.Proofs.Evaluation.Limits

/-! The meaning of a program as a relation. A task is run from one environment to another
inside given blocks; nothing is said about bounds. A run ends within some bound exactly if the
relation holds. -/

namespace Scriptlet

def runtimeError (scopes : List Scope) (span : Span) (message : String)
    (help : Option String := none) : Diagnostic where
  kind := .runtimeError
  span
  message
  context := String.intercalate " -> " (scopes.reverse.map Scope.label)
  help

inductive Task
  | node (n : Node)
  | body (statements : List Node)

inductive Runs : List Scope → Task → Environment → Outcome → Environment → Prop
  | literal {σ e token x} (h : token.number? = some x) :
      Runs σ (.node (.literal token)) e (.value (.number x)) e
  | invalid {σ e token} (h : token.number? = none) :
      Runs σ (.node (.literal token)) e
        (.fails (runtimeError σ token.span s!"Invalid number literal '{token.text}'")) e
  | access {σ e name v} (h : e.lookup? name.text = some v) :
      Runs σ (.node (.access name)) e (.value v) e
  | undeclared {σ e name} (h : e.lookup? name.text = none) :
      Runs σ (.node (.access name)) e
        (.fails (runtimeError σ name.span s!"Variable '{name.text}' is not declared"
          (some s!"Declare it first: declare {name.text} = ...;"))) e
  | unary {σ op n s e e' o v w} (h : Runs σ (.node n) e o e') (hv : o.operand? = some v)
      (hw : Value.unary op v = .ok w) : Runs σ (.node (.unary op n s)) e (.value w) e'
  | unaryFails {σ op n s e e' o v error} (h : Runs σ (.node n) e o e') (hv : o.operand? = some v)
      (hw : Value.unary op v = .error error) :
      Runs σ (.node (.unary op n s)) e (.fails (runtimeError σ s error.message)) e'
  | unaryStops {σ op n s e e' o} (h : Runs σ (.node n) e o e') (ho : o.operand? = none) :
      Runs σ (.node (.unary op n s)) e o e'
  | binary {σ left op right s e e₁ e' o₁ o₂ l r w} (hleft : Runs σ (.node left) e o₁ e₁)
      (hl : o₁.operand? = some l) (hright : Runs σ (.node right) e₁ o₂ e')
      (hr : o₂.operand? = some r) (hw : Value.binary op l r = .ok w) :
      Runs σ (.node (.binary left op right s)) e (.value w) e'
  | binaryFails {σ left op right s e e₁ e' o₁ o₂ l r error} (hleft : Runs σ (.node left) e o₁ e₁)
      (hl : o₁.operand? = some l) (hright : Runs σ (.node right) e₁ o₂ e')
      (hr : o₂.operand? = some r) (hw : Value.binary op l r = .error error) :
      Runs σ (.node (.binary left op right s)) e (.fails (runtimeError σ s error.message)) e'
  | leftStops {σ left op right s e e' o} (hleft : Runs σ (.node left) e o e')
      (ho : o.operand? = none) : Runs σ (.node (.binary left op right s)) e o e'
  | rightStops {σ left op right s e e₁ e' o₁ o l} (hleft : Runs σ (.node left) e o₁ e₁)
      (hl : o₁.operand? = some l) (hright : Runs σ (.node right) e₁ o e')
      (ho : o.operand? = none) : Runs σ (.node (.binary left op right s)) e o e'
  | group {σ n s e o e'} (h : Runs σ (.node n) e o e') : Runs σ (.node (.group n s)) e o e'
  | declare {σ name n s e e₁ e' o v} (h : Runs σ (.node n) e o e₁) (hv : o.operand? = some v)
      (hdeclare : e₁.declare name.text v false = .ok e') :
      Runs σ (.node (.declare name n s)) e .nothing e'
  | declareFails {σ name n s e e' o v error} (h : Runs σ (.node n) e o e')
      (hv : o.operand? = some v) (hdeclare : e'.declare name.text v false = .error error) :
      Runs σ (.node (.declare name n s)) e (.fails (runtimeError σ s error.message)) e'
  | declareStops {σ name n s e e' o} (h : Runs σ (.node n) e o e') (ho : o.operand? = none) :
      Runs σ (.node (.declare name n s)) e o e'
  | branch {σ condition body s e e₁ e' o v o'} (h : Runs σ (.node condition) e o e₁)
      (hv : o.operand? = some v) (htrue : v.isTrue = true)
      (hbody : Runs (.branch :: σ) (.body body) e₁ o' e') :
      Runs σ (.node (.branch condition body s)) e o' e'
  | branchSkips {σ condition body s e e' o v} (h : Runs σ (.node condition) e o e')
      (hv : o.operand? = some v) (hfalse : v.isTrue = false) :
      Runs σ (.node (.branch condition body s)) e .nothing e'
  | branchStops {σ condition body s e e' o} (h : Runs σ (.node condition) e o e')
      (ho : o.operand? = none) : Runs σ (.node (.branch condition body s)) e o e'
  | loopAgain {σ condition body s e e₁ e₂ e' o v o₁ o'} (h : Runs σ (.node condition) e o e₁)
      (hv : o.operand? = some v) (htrue : v.isTrue = true)
      (hbody : Runs (.loop :: σ) (.body body) e₁ o₁ e₂) (ho₁ : o₁ = .nothing ∨ o₁ = .continues)
      (hagain : Runs σ (.node (.loop condition body s)) e₂ o' e') :
      Runs σ (.node (.loop condition body s)) e o' e'
  | loopBreaks {σ condition body s e e₁ e' o v} (h : Runs σ (.node condition) e o e₁)
      (hv : o.operand? = some v) (htrue : v.isTrue = true)
      (hbody : Runs (.loop :: σ) (.body body) e₁ .breaks e') :
      Runs σ (.node (.loop condition body s)) e .nothing e'
  | loopFails {σ condition body s e e₁ e' o v d} (h : Runs σ (.node condition) e o e₁)
      (hv : o.operand? = some v) (htrue : v.isTrue = true)
      (hbody : Runs (.loop :: σ) (.body body) e₁ (.fails d) e') :
      Runs σ (.node (.loop condition body s)) e (.fails d) e'
  | loopEnds {σ condition body s e e' o v} (h : Runs σ (.node condition) e o e')
      (hv : o.operand? = some v) (hfalse : v.isTrue = false) :
      Runs σ (.node (.loop condition body s)) e .nothing e'
  | loopStops {σ condition body s e e' o} (h : Runs σ (.node condition) e o e')
      (ho : o.operand? = none) : Runs σ (.node (.loop condition body s)) e o e'
  | breakLoop {σ s e} : Runs σ (.node (.breakLoop s)) e .breaks e
  | continueLoop {σ s e} : Runs σ (.node (.continueLoop s)) e .continues e
  | missing {σ s e} : Runs σ (.node (.missing s)) e (.value .null) e
  | done {σ e} : Runs σ (.body []) e .nothing e
  | next {σ n ns e e₁ e' o v o'} (h : Runs σ (.node n) e o e₁) (hv : o.operand? = some v)
      (hrest : Runs σ (.body ns) e₁ o' e') : Runs σ (.body (n :: ns)) e o' e'
  | stops {σ n ns e e' o} (h : Runs σ (.node n) e o e') (ho : o.operand? = none) :
      Runs σ (.body (n :: ns)) e o e'

theorem Run.andThen_eq_some {run : Run} {next : Value → Machine → Run} {r : Outcome × Machine}
    (h : run.andThen next = some r) :
    ∃ outcome m, run = some (outcome, m) ∧
      ((∃ v, outcome.operand? = some v ∧ next v m = some r) ∨
        (outcome.operand? = none ∧ r = (outcome, m))) := by
  rcases run with _ | ⟨outcome, m⟩
  · cases h
  rw [Run.andThen_some] at h
  refine ⟨outcome, m, rfl, ?_⟩
  rcases hv : outcome.operand? with _ | v <;> simp only [hv] at h
  · exact .inr ⟨rfl, (Option.some.inj h).symm⟩
  · exact .inl ⟨v, rfl, h⟩

theorem Runs.body_outcome {σ : List Scope} {task : Task} {e e' : Environment} {o : Outcome}
    (h : Runs σ task e o e') :
    match task with
    | .body _ => ∀ v, o ≠ .value v
    | .node _ => True := by
  induction h with
  | done =>
    intro v hv
    cases hv
  | next _ _ _ _ ih => exact ih
  | stops _ ho =>
    rintro v rfl
    cases ho
  | _ => trivial

/-- Whatever the run ends with, the relation allows, and the scopes are left as they were. -/
def Realizes (run : Machine → Run) (σ : List Scope) (task : Task) : Prop :=
  ∀ e o m, run ⟨e, σ⟩ = some (o, m) → ∃ e', m = ⟨e', σ⟩ ∧ Runs σ task e o e'

namespace Realizes
variable {σ : List Scope} {run : Machine → Run} {body : Machine → Run} {condition n : Node}
  {ns : List Node} {s : Span}

theorem andThen (h : Realizes run σ (.node n)) {next : Value → Machine → Run} {e : Environment}
    {o : Outcome} {m : Machine} (hm : (run ⟨e, σ⟩).andThen next = some (o, m)) :
    ∃ o₁ e₁, Runs σ (.node n) e o₁ e₁ ∧
      ((∃ v, o₁.operand? = some v ∧ next v ⟨e₁, σ⟩ = some (o, m)) ∨
        (o₁.operand? = none ∧ (o, m) = (o₁, ⟨e₁, σ⟩))) := by
  obtain ⟨o₁, m₁, hrun, hrest⟩ := Run.andThen_eq_some hm
  obtain ⟨e₁, rfl, hruns⟩ := h e o₁ m₁ hrun
  exact ⟨o₁, e₁, hruns, hrest⟩

theorem unary (h : Realizes run σ (.node n)) (op : UnaryOp) :
    Realizes (fun m => (run m).andThen fun v m => m.finish s (Value.unary op v)) σ
      (.node (.unary op n s)) := by
  intro e o m hm
  obtain ⟨o₁, e₁, hruns, ⟨v, hv, hfinish⟩ | ⟨ho, heq⟩⟩ := h.andThen hm
  · rcases hw : Value.unary op v with error | w <;> rw [hw] at hfinish <;> cases hfinish
    · exact ⟨e₁, rfl, .unaryFails hruns hv hw⟩
    · exact ⟨e₁, rfl, .unary hruns hv hw⟩
  · cases heq
    exact ⟨e₁, rfl, .unaryStops hruns ho⟩

theorem binary {left right : Node} {runLeft runRight : Machine → Run}
    (hleft : Realizes runLeft σ (.node left)) (hright : Realizes runRight σ (.node right))
    (op : BinaryOp) :
    Realizes (fun m => (runLeft m).andThen fun l m => (runRight m).andThen fun r m =>
      m.finish s (Value.binary op l r)) σ (.node (.binary left op right s)) := by
  intro e o m hm
  obtain ⟨o₁, e₁, hruns, ⟨l, hl, hrest⟩ | ⟨ho, heq⟩⟩ := hleft.andThen hm
  · obtain ⟨o₂, e₂, hruns₂, ⟨r, hr, hfinish⟩ | ⟨ho, heq⟩⟩ := hright.andThen hrest
    · rcases hw : Value.binary op l r with error | w <;> rw [hw] at hfinish <;> cases hfinish
      · exact ⟨e₂, rfl, .binaryFails hruns hl hruns₂ hr hw⟩
      · exact ⟨e₂, rfl, .binary hruns hl hruns₂ hr hw⟩
    · cases heq
      exact ⟨e₂, rfl, .rightStops hruns hl hruns₂ ho⟩
  · cases heq
    exact ⟨e₁, rfl, .leftStops hruns ho⟩

theorem declare (h : Realizes run σ (.node n)) (name : Token) :
    Realizes (fun m => (run m).andThen fun v m => m.declare name.text v s) σ
      (.node (.declare name n s)) := by
  intro e o m hm
  obtain ⟨o₁, e₁, hruns, ⟨v, hv, hdeclare⟩ | ⟨ho, heq⟩⟩ := h.andThen hm
  · rw [Machine.declare] at hdeclare
    rcases he : e₁.declare name.text v false with error | e₂ <;> rw [he] at hdeclare <;>
      cases hdeclare
    · exact ⟨e₁, rfl, .declareFails hruns hv he⟩
    · exact ⟨e₂, rfl, .declare hruns hv he⟩
  · cases heq
    exact ⟨e₁, rfl, .declareStops hruns ho⟩

theorem within {scope : Scope} (h : Realizes body (scope :: σ) (.body ns)) {e : Environment}
    {o : Outcome} {m : Machine} (hm : (Machine.mk e σ).within scope body = some (o, m)) :
    ∃ e', m = ⟨e', σ⟩ ∧ Runs (scope :: σ) (.body ns) e o e' := by
  obtain ⟨⟨o₁, m₁⟩, hbody, heq⟩ := Option.map_eq_some_iff.1 hm
  obtain ⟨e₁, rfl, hruns⟩ := h e o₁ m₁ hbody
  cases heq
  exact ⟨e₁, rfl, hruns⟩

theorem branch (h : Realizes run σ (.node condition))
    (hbody : Realizes body (.branch :: σ) (.body ns)) :
    Realizes (fun m => (run m).andThen fun v m =>
      if v.isTrue then m.within .branch body else some (.nothing, m)) σ
      (.node (.branch condition ns s)) := by
  intro e o m hm
  obtain ⟨o₁, e₁, hruns, ⟨v, hv, hrest⟩ | ⟨ho, heq⟩⟩ := h.andThen hm
  · split at hrest
    · next htrue =>
      obtain ⟨e₂, rfl, hruns₂⟩ := hbody.within hrest
      exact ⟨e₂, rfl, .branch hruns hv htrue hruns₂⟩
    · next hfalse =>
      cases hrest
      exact ⟨e₁, rfl, .branchSkips hruns hv (Bool.eq_false_iff.2 hfalse)⟩
  · cases heq
    exact ⟨e₁, rfl, .branchStops hruns ho⟩

theorem repeatWhile (h : Realizes run σ (.node condition))
    (hbody : Realizes body (.loop :: σ) (.body ns)) (rounds : Nat) :
    Realizes (repeatWhile run (·.within .loop body) rounds) σ (.node (.loop condition ns s)) := by
  induction rounds with
  | zero =>
    intro e o m hm
    cases hm
  | succ rounds ih =>
    intro e o m hm
    obtain ⟨o₁, e₁, hruns, ⟨v, hv, hrest⟩ | ⟨ho, heq⟩⟩ := h.andThen hm
    · split at hrest
      · next htrue =>
        rcases hwithin : (Machine.mk e₁ σ).within .loop body with _ | ⟨o₂, m₂⟩
        · simp [hwithin] at hrest
        obtain ⟨e₂, rfl, hruns₂⟩ := hbody.within hwithin
        simp only [hwithin] at hrest
        cases o₂ with
        | value v => exact absurd rfl (hruns₂.body_outcome v)
        | breaks =>
          cases hrest
          exact ⟨e₂, rfl, .loopBreaks hruns hv htrue hruns₂⟩
        | fails d =>
          cases hrest
          exact ⟨e₂, rfl, .loopFails hruns hv htrue hruns₂⟩
        | nothing =>
          obtain ⟨e₃, rfl, hagain⟩ := ih e₂ o m hrest
          exact ⟨e₃, rfl, .loopAgain hruns hv htrue hruns₂ (.inl rfl) hagain⟩
        | continues =>
          obtain ⟨e₃, rfl, hagain⟩ := ih e₂ o m hrest
          exact ⟨e₃, rfl, .loopAgain hruns hv htrue hruns₂ (.inr rfl) hagain⟩
      · next hfalse =>
        cases hrest
        exact ⟨e₁, rfl, .loopEnds hruns hv (Bool.eq_false_iff.2 hfalse)⟩
    · cases heq
      exact ⟨e₁, rfl, .loopStops hruns ho⟩

theorem next {runAll : Machine → Run} (h : Realizes run σ (.node n))
    (hrest : Realizes runAll σ (.body ns)) :
    Realizes (fun m => (run m).andThen fun _ m => runAll m) σ (.body (n :: ns)) := by
  intro e o m hm
  obtain ⟨o₁, e₁, hruns, ⟨v, hv, hall⟩ | ⟨ho, heq⟩⟩ := h.andThen hm
  · obtain ⟨e₂, rfl, hruns₂⟩ := hrest e₁ o m hall
    exact ⟨e₂, rfl, .next hruns hv hruns₂⟩
  · cases heq
    exact ⟨e₁, rfl, .stops hruns ho⟩

end Realizes

mutual

theorem Node.realizes (limit : Nat) (σ : List Scope) :
    ∀ n : Node, Realizes (n.evaluate limit) σ (.node n)
  | .literal token => by
    intro e o m hm
    rw [Node.evaluate] at hm
    rcases hx : token.number? with _ | x <;> rw [hx] at hm <;> cases hm
    · exact ⟨e, rfl, .invalid hx⟩
    · exact ⟨e, rfl, .literal hx⟩
  | .access name => by
    intro e o m hm
    rw [Node.evaluate, Machine.access] at hm
    rcases hv : e.lookup? name.text with _ | v <;> rw [hv] at hm <;> cases hm
    · exact ⟨e, rfl, .undeclared hv⟩
    · exact ⟨e, rfl, .access hv⟩
  | .unary op operand _ => (operand.realizes limit σ).unary op
  | .binary left op right _ => (left.realizes limit σ).binary (right.realizes limit σ) op
  | .group inner _ => by
    intro e o m hm
    obtain ⟨e', rfl, hruns⟩ := inner.realizes limit σ e o m hm
    exact ⟨e', rfl, .group hruns⟩
  | .declare name value _ => (value.realizes limit σ).declare name
  | .branch condition body _ =>
    (condition.realizes limit σ).branch (evaluateAll_realizes limit (.branch :: σ) body)
  | .loop condition body _ =>
    (condition.realizes limit σ).repeatWhile (evaluateAll_realizes limit (.loop :: σ) body) limit
  | .breakLoop _ => by
    intro e o m hm
    cases hm
    exact ⟨e, rfl, .breakLoop⟩
  | .continueLoop _ => by
    intro e o m hm
    cases hm
    exact ⟨e, rfl, .continueLoop⟩
  | .missing _ => by
    intro e o m hm
    cases hm
    exact ⟨e, rfl, .missing⟩

theorem evaluateAll_realizes (limit : Nat) (σ : List Scope) :
    ∀ ns : List Node, Realizes (evaluateAll limit ns) σ (.body ns)
  | [] => by
    intro e o m hm
    cases hm
    exact ⟨e, rfl, .done⟩
  | n :: ns => (n.realizes limit σ).next (evaluateAll_realizes limit σ ns)

end

def Task.run (limit : Nat) : Task → Machine → Run
  | node n => n.evaluate limit
  | body ns => evaluateAll limit ns

theorem Task.realizes (limit : Nat) (σ : List Scope) (task : Task) :
    Realizes (task.run limit) σ task := by
  cases task with
  | node n => exact n.realizes limit σ
  | body ns => exact evaluateAll_realizes limit σ ns

theorem Runs.settles {σ : List Scope} {task : Task} {e e' : Environment} {o : Outcome}
    (h : Runs σ task e o e') : Settles (fun l => task.run l ⟨e, σ⟩) (o, ⟨e', σ⟩) := by
  induction h with
  | literal h => exact .of_eq fun l => by rw [Task.run, Node.evaluate, h]
  | invalid h =>
    refine .of_eq fun l => ?_
    rw [Task.run, Node.evaluate, h]
    rfl
  | access h => exact .of_eq fun l => by rw [Task.run, Node.evaluate, Machine.access, h]
  | undeclared h =>
    refine .of_eq fun l => ?_
    rw [Task.run, Node.evaluate, Machine.access, h]
    rfl
  | unary _ hv hw ih | unaryFails _ hv hw ih =>
    refine ih.andThen hv (.of_eq fun l => ?_)
    rw [hw]
    rfl
  | binary _ hl _ hr hw ihleft ihright | binaryFails _ hl _ hr hw ihleft ihright =>
    refine ihleft.andThen hl (ihright.andThen hr (.of_eq fun l => ?_))
    rw [hw]
    rfl
  | unaryStops _ ho ih | leftStops _ ho ih | declareStops _ ho ih | branchStops _ ho ih
  | stops _ ho ih => exact ih.stop ho
  | rightStops _ hl _ ho ihleft ihright => exact ihleft.andThen hl (ihright.stop ho)
  | group _ ih => exact ih
  | declare _ hv hdeclare ih =>
    exact ih.andThen hv (.of_eq fun l => by rw [Machine.declare, hdeclare])
  | declareFails _ hv hdeclare ih =>
    refine ih.andThen hv (.of_eq fun l => ?_)
    rw [Machine.declare, hdeclare]
    rfl
  | branch _ hv htrue _ ih ihbody =>
    refine ih.andThen hv ?_
    simp only [htrue, if_true]
    exact ihbody.within
  | branchSkips _ hv hfalse ih =>
    refine ih.andThen hv (.of_eq fun l => ?_)
    rw [hfalse]
    rfl
  | @loopAgain _ _ _ _ _ _ _ _ _ _ o₁ _ _ hv htrue _ ho₁ _ ih ihbody ihagain =>
    refine .of_shift (ih.shift.andThen hv ?_)
    obtain ⟨k, hk⟩ := ihbody.within.shift.and ihagain
    simp only [Task.run] at hk
    refine ⟨k, fun l hl => ?_⟩
    obtain ⟨hbody, hagain⟩ := hk l hl
    -- the rounds that are left run their parts within one more than is known to be enough
    have hrounds := Outlasts.repeatWhile (Node.evaluate_outlasts l.le_succ _)
      (Outlasts.within (evaluateAll_outlasts l.le_succ _) · .loop) (Nat.le_refl l) _ _ hagain
    simp only [htrue, if_true]
    rw [hbody]
    rcases ho₁ with rfl | rfl <;> exact hrounds
  | loopBreaks _ hv htrue _ ih ihbody | loopFails _ hv htrue _ ih ihbody =>
    refine .of_shift (ih.shift.andThen hv ?_)
    obtain ⟨k, hk⟩ := ihbody.within.shift
    simp only [Task.run] at hk
    refine ⟨k, fun l hl => ?_⟩
    simp only [htrue, if_true]
    rw [hk l hl]
  | loopEnds _ hv hfalse ih =>
    refine .of_shift (ih.shift.andThen hv (.of_eq fun l => ?_))
    rw [hfalse]
    rfl
  | loopStops _ ho ih => exact .of_shift (ih.shift.stop ho)
  | breakLoop | continueLoop | missing | done => exact .of_eq fun _ => rfl
  | next _ hv _ ih ihrest => exact ih.andThen hv ihrest

/-- The evaluation of any tree ends, within some bound, exactly as the relation has it, and it
leaves the blocks that it runs in as they were. -/
theorem evaluate_iff_runs (n : Node) (m m' : Machine) (o : Outcome) :
    (∃ limit, n.evaluate limit m = some (o, m')) ↔
      m'.scopes = m.scopes ∧ Runs m.scopes (.node n) m.environment o m'.environment := by
  obtain ⟨e, σ⟩ := m
  obtain ⟨e', σ'⟩ := m'
  constructor
  · rintro ⟨limit, hrun⟩
    obtain ⟨e₁, heq, hruns⟩ := n.realizes limit σ e o _ hrun
    cases heq
    exact ⟨rfl, hruns⟩
  · rintro ⟨hscopes, hruns⟩
    obtain rfl : σ' = σ := hscopes
    obtain ⟨k, hk⟩ := hruns.settles
    exact ⟨k, hk k (Nat.le_refl k)⟩

theorem Program.exists_of_run_cons {limit : Nat} {root : Node} {roots : Program} {m m' : Machine}
    {e : Evaluation} (h : Program.run limit (root :: roots) m = some (e, m')) :
    ∃ o env, root.evaluate limit m = some (o, ⟨env, m.scopes⟩) ∧
      Runs m.scopes (.node root) m.environment o env ∧
      ((∃ v later, o.operand? = some v ∧
          Program.run limit roots ⟨env, m.scopes⟩ = some (later, m') ∧
          e.diagnostics = later.diagnostics) ∨
        m' = ⟨env, m.scopes⟩ ∧ ∃ d, e.diagnostics = [d] ∧
          (o = .fails d ∨ o = .breaks ∧ d = m'.straySignal .breakWord root.span ∨
            o = .continues ∧ d = m'.straySignal .continueWord root.span)) := by
  unfold Program.run at h
  rcases hrun : root.evaluate limit m with _ | ⟨o, m₁⟩
  · simp [hrun] at h
  obtain ⟨env, rfl, hruns⟩ := root.realizes limit m.scopes m.environment o m₁ hrun
  refine ⟨o, env, rfl, hruns, ?_⟩
  simp only [hrun] at h
  cases o with
  | value v =>
    obtain ⟨⟨later, m₂⟩, hrest, heq⟩ := Option.map_eq_some_iff.1 h
    cases heq
    exact .inl ⟨v, later, rfl, hrest, rfl⟩
  | nothing => exact .inl ⟨.null, e, rfl, h, rfl⟩
  | breaks =>
    cases h
    exact .inr ⟨rfl, _, rfl, .inr (.inl ⟨rfl, rfl⟩)⟩
  | continues =>
    cases h
    exact .inr ⟨rfl, _, rfl, .inr (.inr ⟨rfl, rfl⟩)⟩
  | fails d =>
    cases h
    exact .inr ⟨rfl, d, rfl, .inl rfl⟩

end Scriptlet
