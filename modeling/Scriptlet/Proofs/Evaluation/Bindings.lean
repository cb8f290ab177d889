import Scriptlet.Proofs.Evaluation.Blame

/-! How the variables of a session can change. Programs write by declarations only, which bind no
locked name and lock none, and a host that declares names is refused the locked ones as well. -/

namespace Scriptlet

namespace Environment
variable {env after : Environment} {name : String} {value : Value} {locked : Bool}

structure Persists (env after : Environment) : Prop where
  contains (name : String) (h : env.contains name = true) : after.contains name = true
  isLocked (name : String) (h : env.isLocked name = true) : after.isLocked name = true
  lookup?_eq (name : String) (h : env.isLocked name = true) :
    after.lookup? name = env.lookup? name

namespace Persists

theorem refl (env : Environment) : env.Persists env := ⟨fun _ h => h, fun _ h => h, fun _ _ => rfl⟩

theorem trans {final : Environment} (h : env.Persists after) (hlater : after.Persists final) :
    env.Persists final where
  contains name hname := hlater.contains name (h.contains name hname)
  isLocked name hname := hlater.isLocked name (h.isLocked name hname)
  lookup?_eq name hname :=
    (hlater.lookup?_eq name (h.isLocked name hname)).trans (h.lookup?_eq name hname)

theorem of_declare (h : env.declare name value locked = .ok after) : env.Persists after := by
  obtain ⟨hfree, rfl⟩ := declare_eq_ok_iff.1 h
  constructor
  · intro other hother
    rw [contains_eq_isSome, lookup?_bind]
    split
    · rfl
    · exact hother
  · intro other hother
    rw [isLocked_bind, hother, Bool.true_or]
  · intro other hother
    have hne : other ≠ name := by
      rintro rfl
      exact nomatch hother.symm.trans hfree
    rw [lookup?_bind, if_neg hne]

end Persists

/-- Between the environments no lock changes, and only names that one of the nodes declares are
bound, none of them locked. -/
structure Assigns (nodes : List Node) (env after : Environment) : Prop where
  isLocked_eq (name : String) : after.isLocked name = env.isLocked name
  lookup?_eq (name : String) :
    after.lookup? name = env.lookup? name ∨
      env.isLocked name = false ∧ after.contains name = true ∧
        ∃ token value s, .declare token value s ∈ nodes ∧ token.text = name

namespace Assigns
variable {ns ms : List Node}

theorem refl (env : Environment) : Assigns ns env env := ⟨fun _ => rfl, fun _ => .inl rfl⟩

theorem mono (h : Assigns ns env after) (hsub : ns ⊆ ms) : Assigns ms env after := by
  refine ⟨h.isLocked_eq, fun name => (h.lookup?_eq name).imp_right ?_⟩
  rintro ⟨hfree, hbound, token, value, s, hmem, htext⟩
  exact ⟨hfree, hbound, token, value, s, hsub hmem, htext⟩

theorem trans {final : Environment} (h : Assigns ns env after) (hlater : Assigns ns after final) :
    Assigns ns env final := by
  refine ⟨fun name => (hlater.isLocked_eq name).trans (h.isLocked_eq name), fun name => ?_⟩
  rcases hlater.lookup?_eq name with heq | ⟨hfree, hassigned⟩
  · rw [heq, contains_eq_isSome, heq, ← contains_eq_isSome]
    exact h.lookup?_eq name
  · rw [h.isLocked_eq] at hfree
    exact .inr ⟨hfree, hassigned⟩

theorem of_declare {token : Token} {n : Node} {s : Span}
    (h : env.declare token.text value false = .ok after) (hmem : .declare token n s ∈ ns) :
    Assigns ns env after := by
  obtain ⟨hfree, rfl⟩ := declare_eq_ok_iff.1 h
  constructor
  · intro name
    simp [isLocked_bind]
  · intro name
    rw [contains_eq_isSome, lookup?_bind]
    split
    · next hname => exact .inr ⟨hname ▸ hfree, rfl, token, n, s, hmem, hname.symm⟩
    · exact .inl rfl

theorem persists (h : Assigns ns env after) : env.Persists after := by
  refine ⟨fun name hname => ?_, fun name => (h.isLocked_eq name).trans, fun name hname => ?_⟩
  · rcases h.lookup?_eq name with heq | ⟨-, hbound, -⟩
    · rwa [contains_eq_isSome, heq, ← contains_eq_isSome]
    · exact hbound
  · rcases h.lookup?_eq name with heq | ⟨hfree, -⟩
    · exact heq
    · exact nomatch hname.symm.trans hfree

end Assigns

/-- No name is locked before it has a value. -/
def LocksBound (env : Environment) : Prop :=
  ∀ name, env.isLocked name = true → env.contains name = true

namespace LocksBound

theorem initial : Environment.initial.LocksBound := by
  intro name hname
  have hmem : name ∈ ["null", "true", "false"] := by
    simpa [isLocked, Environment.initial, seed, or_comm, or_left_comm] using hname
  simp only [List.mem_cons, List.not_mem_nil, or_false] at hmem
  rcases hmem with rfl | rfl | rfl <;> rfl

theorem of_declare (hbound : env.LocksBound) (h : env.declare name value locked = .ok after) :
    after.LocksBound := by
  obtain ⟨-, rfl⟩ := declare_eq_ok_iff.1 h
  intro other hother
  rw [contains_eq_isSome, lookup?_bind]
  split
  · rfl
  · next hne =>
    rw [isLocked_bind, decide_eq_false hne, Bool.and_false, Bool.or_false] at hother
    exact hbound other hother

theorem of_assigns {ns : List Node} (hbound : env.LocksBound) (h : Assigns ns env after) :
    after.LocksBound := by
  intro name hname
  rw [h.isLocked_eq] at hname
  exact h.persists.contains name (hbound name hname)

end LocksBound
end Environment

theorem Runs.assigns {σ : List Scope} {task : Task} {e e' : Environment} {o : Outcome}
    (h : Runs σ task e o e') : Environment.Assigns task.nodes e e' := by
  induction h with
  | literal | invalid | access | undeclared | breakLoop | continueLoop | missing | done =>
    exact .refl _
  | unary _ _ _ ih | unaryFails _ _ _ ih | unaryStops _ _ ih | group _ ih
  | declareFails _ _ _ ih | declareStops _ _ ih | leftStops _ _ ih | branchSkips _ _ _ ih
  | branchStops _ _ ih | loopEnds _ _ _ ih | loopStops _ _ ih | stops _ _ ih =>
    exact ih.mono (by simp [Task.nodes])
  | binary _ _ _ _ _ ihleft ihright | binaryFails _ _ _ _ _ ihleft ihright
  | rightStops _ _ _ _ ihleft ihright =>
    exact (ihleft.mono (by simp [Task.nodes])).trans (ihright.mono (by simp [Task.nodes]))
  | declare _ _ hdeclare ih =>
    exact (ih.mono (by simp [Task.nodes])).trans (.of_declare hdeclare (Node.self_mem_nodes _))
  | branch _ _ _ _ ih ihbody | loopBreaks _ _ _ _ ih ihbody | loopFails _ _ _ _ ih ihbody =>
    exact (ih.mono (by simp [Task.nodes])).trans (ihbody.mono (by simp [Task.nodes]))
  | loopAgain _ _ _ _ _ _ ih ihbody ihagain =>
    -- the later rounds come to the same nodes as the whole loop
    refine Environment.Assigns.trans ?_ ihagain
    exact (ih.mono (by simp [Task.nodes])).trans (ihbody.mono (by simp [Task.nodes]))
  | next _ _ _ ih ihrest =>
    exact (ih.mono (by simp [Task.nodes])).trans (ihrest.mono (by simp [Task.nodes]))

theorem Runs.isLocked_eq {σ : List Scope} {task : Task} {e e' : Environment} {o : Outcome}
    (h : Runs σ task e o e') : e'.isLocked = e.isLocked :=
  funext h.assigns.isLocked_eq

theorem Program.run_assigns {limit : Nat} {p : Program} {m m' : Machine} {e : Evaluation}
    (h : p.run limit m = some (e, m')) :
    Environment.Assigns p.nodes m.environment m'.environment := by
  induction p generalizing m e with
  | nil =>
    cases h
    exact .refl _
  | cons root roots ih =>
    obtain ⟨o, env₁, -, hruns, hends⟩ := exists_of_run_cons h
    have hroot : Environment.Assigns (nodes (root :: roots)) m.environment env₁ :=
      hruns.assigns.mono (by simp [Task.nodes])
    rcases hends with ⟨v, later, -, hrest, -⟩ | ⟨rfl, -⟩
    · exact hroot.trans ((ih hrest).mono (by simp))
    · exact hroot

theorem Parsed.evaluate_assigns {limit : Nat} {p : Parsed} {env after : Environment}
    {e : Evaluation} (h : p.evaluate limit env = some (e, after)) :
    Environment.Assigns p.program.nodes env after := by
  rw [evaluate] at h
  split at h
  · obtain ⟨⟨e, m⟩, hrun, heq⟩ := Option.map_eq_some_iff.1 h
    cases heq
    exact Program.run_assigns hrun
  · cases h
    exact .refl env

inductive Work
  | node (scopes : List Scope) (n : Node)
  | program (p : Parsed)
  | text (source content : String)

namespace Work

def nodes : Work → List Node
  | node _ n => n.nodes
  | program p => p.program.nodes
  | text source content => (parseText source content).program.nodes

def leave (limit : Nat) : Work → Environment → Option Environment
  | node scopes n, env => (n.evaluate limit ⟨env, scopes⟩).map (·.2.environment)
  | program p, env => (p.evaluate limit env).map (·.2)
  | text source content, env => (evaluateText limit source content env).map (·.2)

theorem leave_assigns {limit : Nat} {w : Work} {env after : Environment}
    (h : w.leave limit env = some after) : Environment.Assigns w.nodes env after := by
  cases w with
  | node scopes n =>
    obtain ⟨⟨o, m⟩, hrun, rfl⟩ := Option.map_eq_some_iff.1 h
    obtain ⟨_, rfl, hruns⟩ := n.realizes limit scopes env o m hrun
    exact hruns.assigns
  | program p =>
    obtain ⟨⟨e, _⟩, hrun, rfl⟩ := Option.map_eq_some_iff.1 h
    exact p.evaluate_assigns hrun
  | text source content =>
    obtain ⟨⟨e, _⟩, hrun, rfl⟩ := Option.map_eq_some_iff.1 h
    exact (parseText source content).evaluate_assigns hrun

end Work

inductive Operation
  | declare (name : String) (value : Value) (locked : Bool)
  | evaluate (w : Work)

inductive Operation.Turns : Operation → Environment → Environment → Prop
  | declared {name value locked env after} (h : env.declare name value locked = .ok after) :
      Turns (.declare name value locked) env after
  | refused {name value locked env error} (h : env.declare name value locked = .error error) :
      Turns (.declare name value locked) env env
  | evaluated {w limit env after} (h : w.leave limit env = some after) :
      Turns (.evaluate w) env after

inductive Session : List Operation → Environment → Environment → Prop
  | done {env} : Session [] env env
  | turn {op ops env next after} (h : op.Turns env next) (hrest : Session ops next after) :
      Session (op :: ops) env after

theorem Operation.Turns.persists {op : Operation} {env after : Environment}
    (h : op.Turns env after) : env.Persists after := by
  cases h with
  | declared h => exact .of_declare h
  | refused => exact .refl env
  | evaluated h => exact (Work.leave_assigns h).persists

theorem Operation.Turns.locksBound {op : Operation} {env after : Environment}
    (h : op.Turns env after) (hbound : env.LocksBound) : after.LocksBound := by
  cases h with
  | declared h => exact hbound.of_declare h
  | refused => exact hbound
  | evaluated h => exact hbound.of_assigns (Work.leave_assigns h)

theorem Session.locksBound {ops : List Operation} {env after : Environment}
    (h : Session ops env after) (hbound : env.LocksBound) : after.LocksBound := by
  induction h with
  | done => exact hbound
  | turn h _ ih => exact ih (h.locksBound hbound)

theorem Session.persists {ops : List Operation} {env after : Environment}
    (h : Session ops env after) : env.Persists after := by
  induction h with
  | done => exact .refl _
  | turn h _ ih => exact h.persists.trans ih

/-- In every state of a session the locked names are bound, the names that it started with are
locked and have their values, and from then on every bound name stays bound and every locked name
stays locked with its value. What is evaluated changes no lock, and binds only names that are not
locked and that it declares. A locked name is refused, and nothing changes. -/
theorem session_bindings :
    (∀ (ops : List Operation) (env : Environment), Session ops .initial env →
      (∀ name, env.isLocked name = true → env.contains name = true) ∧
      (∀ start ∈ [("null", .null), ("true", .boolean true), ("false", .boolean false)],
        env.isLocked start.1 = true ∧ env.lookup? start.1 = some start.2) ∧
      ∀ (later : List Operation) (after : Environment), Session later env after → ∀ name,
        (env.contains name = true → after.contains name = true) ∧
        (env.isLocked name = true →
          after.isLocked name = true ∧ after.lookup? name = env.lookup? name)) ∧
    (∀ (w : Work) (env after : Environment), (Operation.evaluate w).Turns env after → ∀ name,
      after.isLocked name = env.isLocked name ∧
      (after.lookup? name ≠ env.lookup? name →
        env.isLocked name = false ∧
          ∃ token value s, .declare token value s ∈ w.nodes ∧ token.text = name)) ∧
    ∀ (env : Environment) (name : String) (value : Value) (locked : Bool),
      env.isLocked name = true →
        env.declare name value locked = .error (.locked name) ∧
        ∀ after, (Operation.declare name value locked).Turns env after → after = env := by
  refine ⟨fun ops env h => ⟨h.locksBound .initial, ?_, ?_⟩, ?_, ?_⟩
  · intro start hstart
    have hpersists := h.persists
    have hlocked : Environment.initial.isLocked start.1 = true ∧
        Environment.initial.lookup? start.1 = some start.2 := by
      simp only [List.mem_cons, List.not_mem_nil, or_false] at hstart
      rcases hstart with rfl | rfl | rfl <;> exact ⟨rfl, rfl⟩
    exact ⟨hpersists.isLocked _ hlocked.1, (hpersists.lookup?_eq _ hlocked.1).trans hlocked.2⟩
  · intro later after hlater name
    have hpersists := hlater.persists
    exact ⟨hpersists.contains name, fun hname =>
      ⟨hpersists.isLocked name hname, hpersists.lookup?_eq name hname⟩⟩
  · intro w env after hturns name
    obtain ⟨limit, hrun⟩ : ∃ limit, w.leave limit env = some after := by
      cases hturns with
      | evaluated h => exact ⟨_, h⟩
    have hassigns := Work.leave_assigns hrun
    refine ⟨hassigns.isLocked_eq name, fun hchanged => ?_⟩
    rcases hassigns.lookup?_eq name with heq | ⟨hfree, -, hdeclared⟩
    · exact absurd heq hchanged
    · exact ⟨hfree, hdeclared⟩
  · intro env name value locked hlocked
    have hrefused : env.declare name value locked = .error (.locked name) := if_pos hlocked
    refine ⟨hrefused, fun after hturns => ?_⟩
    cases hturns with
    | declared h => exact nomatch hrefused.symm.trans h
    | refused => rfl

/-- A host locks `x`, and has `declare y = 1; declare x = y;` run: it binds `y` and then fails. -/
theorem session_of_two_operations :
    let x : Token := ⟨.identifier, "x", none, .nowhere⟩
    let y : Token := ⟨.identifier, "y", none, .nowhere⟩
    let one : Node := .literal ⟨.number, "1", some (.int 1), .nowhere⟩
    let w : Work := .program
      ⟨[.declare y one .nowhere, .declare x (.access y) .nowhere], []⟩
    let env := Environment.initial.bind "x" .null true
    let after := env.bind "y" (.number (.ofInt 1)) false
    Session [.declare "x" .null true] .initial env ∧ (Operation.evaluate w).Turns env after ∧
      (after.lookup? "null" = some .null ∧ after.isLocked "y" = false ∧
        env.declare "x" .null false = .error (.locked "x")) ∧
      ∀ name, env.isLocked name = true → after.lookup? name = env.lookup? name := by
  intro x y one w env after
  obtain ⟨hsession, hevaluation, hrefused⟩ := session_bindings
  have hleave : w.leave 0 env = some after := rfl
  have hlater : Session [.evaluate w] env after := .turn (.evaluated hleave) .done
  have hlocked : Session [.declare "x" .null true] .initial env := .turn (.declared rfl) .done
  have hboth : Session [.declare "x" .null true, .evaluate w] .initial after :=
    .turn (.declared rfl) hlater
  refine ⟨hlocked, .evaluated hleave, ⟨?_, ?_, ?_⟩, ?_⟩
  · exact ((hsession _ _ hboth).2.1 ("null", .null) List.mem_cons_self).2
  · exact (hevaluation w env after (.evaluated hleave) "y").1
  · exact (hrefused env "x" .null false rfl).1
  · intro name hname
    exact (((hsession _ _ hlocked).2.2 _ _ hlater name).2 hname).2

end Scriptlet
