import Scriptlet.Proofs.Evaluation.Bindings
import Scriptlet.Proofs.Evaluation.Blame
import Scriptlet.Proofs.Value.Typing

/-! Types for programs. A program of well-typed statements keeps the variables at their types, and
nothing goes wrong in it but a division by a zero. -/

namespace Scriptlet

abbrev Context := String → Option GroundType

inductive Node.HasType (G : Context) : Node → GroundType → Prop
  | literal {token x} (h : token.number? = some x) : HasType G (.literal token) .number
  | access {name τ} (h : G name.text = some τ) : HasType G (.access name) τ
  | group {n s τ} (h : HasType G n τ) : HasType G (.group n s) τ
  | unary {op n s τ υ} (h : HasType G n τ) (hop : op.resultType? τ = some υ) :
      HasType G (.unary op n s) υ
  | binary {left op right s τ₁ τ₂ υ} (hleft : HasType G left τ₁) (hright : HasType G right τ₂)
      (hop : op.resultType? τ₁ τ₂ = some υ) : HasType G (.binary left op right s) υ

/-- The statement is well-typed where some names are locked, inside the body of a loop or not. -/
inductive Node.WellTyped (G : Context) (locked : String → Bool) : Bool → Node → Prop
  | expression {inLoop n τ} (h : n.HasType G τ) : WellTyped G locked inLoop n
  | declare {inLoop name n s τ} (hfree : locked name.text = false) (hname : G name.text = some τ)
      (h : n.HasType G τ) : WellTyped G locked inLoop (.declare name n s)
  | branch {inLoop condition body s τ} (h : condition.HasType G τ)
      (hbody : ∀ n ∈ body, WellTyped G locked inLoop n) :
      WellTyped G locked inLoop (.branch condition body s)
  | loop {inLoop condition body s τ} (h : condition.HasType G τ)
      (hbody : ∀ n ∈ body, WellTyped G locked true n) :
      WellTyped G locked inLoop (.loop condition body s)
  | breakLoop {s} : WellTyped G locked true (.breakLoop s)
  | continueLoop {s} : WellTyped G locked true (.continueLoop s)

def Environment.Models (env : Environment) (G : Context) : Prop :=
  ∀ name τ, G name = some τ → ∃ v, env.lookup? name = some v ∧ v.HasType τ

theorem Environment.Models.declare {G : Context} {env after : Environment} {name : String}
    {v : Value} {τ : GroundType} {locked : Bool} (h : env.Models G) (hname : G name = some τ)
    (hv : v.HasType τ) (hdeclare : env.declare name v locked = .ok after) : after.Models G := by
  intro other υ hother
  obtain ⟨-, rfl⟩ := declare_eq_ok_iff.1 hdeclare
  rw [lookup?_bind]
  by_cases heq : other = name
  · subst heq
    obtain rfl : τ = υ := Option.some.inj (hname.symm.trans hother)
    rw [if_pos rfl]
    exact ⟨v, rfl, hv⟩
  · rw [if_neg heq]
    exact h other υ hother

/-- The run of the task comes to a division whose divisor, in the environment that the run leaves
behind, is a zero, and the diagnostic tells of that division. -/
def DividesByZero (σ : List Scope) (task : Task) (e e' : Environment) (d : Diagnostic) : Prop :=
  ∃ τ left right s x, Visits σ task e τ (.binary left .divide right s) ∧
    Runs τ (.node right) e' (.value (.number x)) e' ∧ (x == 0.0) = true ∧
    d = runtimeError τ s "Division by zero"

theorem DividesByZero.imp {σ σ' : List Scope} {task task' : Task} {e₁ e₂ e' : Environment}
    {d : Diagnostic} (h : DividesByZero σ task e₁ e' d)
    (hvisits : ∀ τ m, Visits σ task e₁ τ m → Visits σ' task' e₂ τ m) :
    DividesByZero σ' task' e₂ e' d := by
  obtain ⟨τ, left, right, s, x, hvisit, hzero⟩ := h
  exact ⟨τ, left, right, s, x, hvisits τ _ hvisit, hzero⟩

inductive Yields (σ : List Scope) (n : Node) (e : Environment) (τ : GroundType) : Outcome → Prop
  | value {v} (hv : v.HasType τ) : Yields σ n e τ (.value v)
  | fails {d} (h : DividesByZero σ (.node n) e e d) : Yields σ n e τ (.fails d)

namespace Yields
variable {σ : List Scope} {n : Node} {e : Environment} {τ : GroundType} {o : Outcome}

theorem value_of_operand? {v : Value} (h : Yields σ n e τ o) (hv : o.operand? = some v) :
    o = .value v ∧ v.HasType τ := by
  cases h with
  | value htype =>
    obtain rfl := Option.some.inj hv
    exact ⟨rfl, htype⟩
  | fails => exact nomatch hv

theorem fails_of_operand? (h : Yields σ n e τ o) (ho : o.operand? = none) :
    ∃ d, o = .fails d ∧ DividesByZero σ (.node n) e e d := by
  cases h with
  | value => exact nomatch ho
  | fails hzero => exact ⟨_, rfl, hzero⟩

theorem lift {m : Node} {υ : GroundType} (h : Yields σ n e τ o) (ho : o.operand? = none)
    (hvisits : ∀ ρ x, Visits σ (.node n) e ρ x → Visits σ (.node m) e ρ x) :
    Yields σ m e υ o := by
  obtain ⟨d, rfl, hzero⟩ := h.fails_of_operand? ho
  exact .fails (hzero.imp hvisits)

end Yields

theorem Node.HasType.yields {G : Context} {n : Node} {τ : GroundType} (h : n.HasType G τ)
    {σ : List Scope} {e e' : Environment} {o : Outcome} (henv : e.Models G)
    (hruns : Runs σ (.node n) e o e') : e' = e ∧ Yields σ n e τ o := by
  -- by the typing, so that a run is split only as its form can run
  induction h generalizing e' o with
  | literal h =>
    cases hruns with
    | literal => exact ⟨rfl, .value (.number _)⟩
    | invalid hnone => exact nomatch h.symm.trans hnone
  | access h =>
    obtain ⟨v, hlookup, hv⟩ := henv _ _ h
    cases hruns with
    | access hsome =>
      obtain rfl := Option.some.inj (hlookup.symm.trans hsome)
      exact ⟨rfl, .value hv⟩
    | undeclared hnone => exact nomatch hlookup.symm.trans hnone
  | group h ih =>
    cases hruns with
    | group hruns =>
      obtain ⟨rfl, hyields⟩ := ih hruns
      refine ⟨rfl, ?_⟩
      cases hyields with
      | value hv => exact .value hv
      | fails hzero => exact .fails (hzero.imp fun _ _ => .group)
  | unary h hop ih =>
    have hoperand {e' o v} (hruns : Runs σ (.node _) e o e') (hv : o.operand? = some v) :
        e' = e ∧ v.HasType _ :=
      ⟨(ih hruns).1, ((ih hruns).2.value_of_operand? hv).2⟩
    cases hruns with
    | unary hruns hv hw =>
      obtain ⟨rfl, htype⟩ := hoperand hruns hv
      obtain ⟨w, hok, hresult⟩ := Value.unary_of_hasType htype hop
      obtain rfl := Except.ok.inj (hok.symm.trans hw)
      exact ⟨rfl, .value hresult⟩
    | unaryFails hruns hv hw =>
      obtain ⟨w, hok, -⟩ := Value.unary_of_hasType (hoperand hruns hv).2 hop
      exact nomatch hok.symm.trans hw
    | unaryStops hruns ho =>
      obtain ⟨rfl, hyields⟩ := ih hruns
      exact ⟨rfl, hyields.lift ho fun _ _ => .unary⟩
  | binary hleft hright hop ihleft ihright =>
    cases hruns with
    | leftStops hruns ho =>
      obtain ⟨rfl, hyields⟩ := ihleft hruns
      exact ⟨rfl, hyields.lift ho fun _ _ => .left⟩
    | rightStops hrunsleft hl hrunsright ho =>
      obtain ⟨rfl, -⟩ := ihleft hrunsleft
      obtain ⟨rfl, hyields⟩ := ihright hrunsright
      exact ⟨rfl, hyields.lift ho fun _ _ => .right hrunsleft hl⟩
    | binary hrunsleft hl hrunsright hr hw =>
      obtain ⟨rfl, hyieldsleft⟩ := ihleft hrunsleft
      obtain ⟨rfl, hyieldsright⟩ := ihright hrunsright
      have hltype := (hyieldsleft.value_of_operand? hl).2
      have hrtype := (hyieldsright.value_of_operand? hr).2
      rcases Value.binary_of_hasType hltype hrtype hop with ⟨w, hok, hresult⟩ | ⟨-, x, -, -, hzero⟩
      · obtain rfl := Except.ok.inj (hok.symm.trans hw)
        exact ⟨rfl, .value hresult⟩
      · exact nomatch hzero.symm.trans hw
    | binaryFails hrunsleft hl hrunsright hr hw =>
      obtain ⟨rfl, hyieldsleft⟩ := ihleft hrunsleft
      obtain ⟨rfl, hyieldsright⟩ := ihright hrunsright
      have hltype := (hyieldsleft.value_of_operand? hl).2
      obtain ⟨rfl, hrtype⟩ := hyieldsright.value_of_operand? hr
      rcases Value.binary_of_hasType hltype hrtype hop with
        ⟨w, hok, -⟩ | ⟨rfl, x, rfl, hx, hzero⟩
      · exact nomatch hok.symm.trans hw
      · obtain rfl := Except.error.inj (hzero.symm.trans hw)
        exact ⟨rfl, .fails ⟨_, _, _, _, x, .self, hrunsright, hx, rfl⟩⟩

structure Sound (G : Context) (inLoop : Bool) (σ : List Scope) (task : Task) (e : Environment)
    (o : Outcome) (e' : Environment) : Prop where
  models : e'.Models G
  signal (h : o.isSignal = true) : inLoop = true
  failure (d : Diagnostic) (h : o = .fails d) : DividesByZero σ task e e' d

namespace Sound
variable {G : Context} {inLoop inner : Bool} {σ ρ : List Scope} {task part : Task}
  {e e₁ e' : Environment} {o : Outcome}

theorem nothing (h : e'.Models G) : Sound G inLoop σ task e .nothing e' := ⟨h, nofun, nofun⟩

theorem imp (h : Sound G inLoop ρ part e₁ o e')
    (hvisits : ∀ τ m, Visits ρ part e₁ τ m → Visits σ task e τ m) :
    Sound G inLoop σ task e o e' :=
  ⟨h.models, h.signal, fun d hd => (h.failure d hd).imp hvisits⟩

theorem of_yields {n : Node} {τ : GroundType} (henv : e.Models G) (h : Yields σ n e τ o)
    (hvisits : ∀ ρ m, Visits σ (.node n) e ρ m → Visits σ task e ρ m) :
    Sound G inLoop σ task e o e := by
  cases h with
  | value => exact ⟨henv, nofun, nofun⟩
  | fails hzero =>
    refine ⟨henv, nofun, ?_⟩
    rintro d ⟨⟩
    exact hzero.imp hvisits

end Sound

/-- However a task is run where the names have their types and the given ones are locked, the run
comes to what it should. -/
def Task.IsSound (G : Context) (locked : String → Bool) (inLoop : Bool) (task : Task) : Prop :=
  ∀ σ e o e', e.isLocked = locked → e.Models G → Runs σ task e o e' →
    Sound G inLoop σ task e o e'

namespace Task.IsSound
variable {G : Context} {locked : String → Bool} {inLoop : Bool} {n condition : Node}
  {ns : List Node} {s : Span} {τ : GroundType}

theorem body (h : ∀ n ∈ ns, (Task.node n).IsSound G locked inLoop) :
    (Task.body ns).IsSound G locked inLoop := by
  induction ns with
  | nil =>
    intro σ e o e' _ henv hruns
    cases hruns
    exact .nothing henv
  | cons n ns ih =>
    intro σ e o e' hlocked henv hruns
    have hhead := h n List.mem_cons_self
    have htail := ih fun m hm => h m (List.mem_cons_of_mem n hm)
    cases hruns with
    | next hruns hv hrest =>
      have hmodels := (hhead σ e _ _ hlocked henv hruns).models
      exact (htail σ _ o e' (hruns.isLocked_eq.trans hlocked) hmodels hrest).imp
        fun _ _ => .later hruns hv
    | stops hruns _ => exact (hhead σ e o e' hlocked henv hruns).imp fun _ _ => .first

theorem declare {name : Token} (hfree : locked name.text = false) (hname : G name.text = some τ)
    (h : n.HasType G τ) : (Task.node (.declare name n s)).IsSound G locked inLoop := by
  intro σ e o e' hlocked henv hruns
  cases hruns with
  | declare hruns hv hdeclare =>
    obtain ⟨rfl, hyields⟩ := h.yields henv hruns
    exact .nothing (henv.declare hname (hyields.value_of_operand? hv).2 hdeclare)
  | declareFails hruns _ hdeclare =>
    obtain ⟨rfl, -⟩ := h.yields henv hruns
    unfold Environment.declare at hdeclare
    rw [hlocked, hfree] at hdeclare
    exact nomatch hdeclare
  | declareStops hruns _ =>
    obtain ⟨rfl, hyields⟩ := h.yields henv hruns
    exact .of_yields henv hyields fun _ _ => .declare

theorem branch (h : condition.HasType G τ) (hbody : (Task.body ns).IsSound G locked inLoop) :
    (Task.node (.branch condition ns s)).IsSound G locked inLoop := by
  intro σ e o e' hlocked henv hruns
  cases hruns with
  | branch hruns hv htrue hrest =>
    obtain ⟨rfl, -⟩ := h.yields henv hruns
    exact (hbody _ _ o e' hlocked henv hrest).imp fun _ _ => .branchBody hruns hv htrue
  | branchSkips hruns _ _ =>
    obtain ⟨rfl, -⟩ := h.yields henv hruns
    exact .nothing henv
  | branchStops hruns _ =>
    obtain ⟨rfl, hyields⟩ := h.yields henv hruns
    exact .of_yields henv hyields fun _ _ => .branchCondition

/-- One round of a loop leaves to the next what the first round needs. -/
theorem loop (h : condition.HasType G τ) (hbody : (Task.body ns).IsSound G locked true) :
    (Task.node (.loop condition ns s)).IsSound G locked inLoop := by
  intro σ e o e' hlocked henv hruns
  generalize htask : Task.node (.loop condition ns s) = task at hruns
  -- by the run and not by the typing: each round starts with the same body again
  induction hruns with
  | loopAgain hruns hv htrue hround ho₁ _ _ _ ih =>
    cases htask
    obtain ⟨rfl, -⟩ := h.yields henv hruns
    have hmodels := (hbody _ _ _ _ hlocked henv hround).models
    exact (ih (hround.isLocked_eq.trans hlocked) hmodels rfl).imp
      fun _ _ => .loopAgain hruns hv htrue hround ho₁
  | loopBreaks hruns _ _ hround =>
    cases htask
    obtain ⟨rfl, -⟩ := h.yields henv hruns
    exact .nothing (hbody _ _ _ _ hlocked henv hround).models
  | loopFails hruns hv htrue hround =>
    cases htask
    obtain ⟨rfl, -⟩ := h.yields henv hruns
    have hsound := (hbody _ _ _ _ hlocked henv hround).imp fun _ _ =>
      Visits.loopBody (s := s) hruns hv htrue
    exact ⟨hsound.models, nofun, hsound.failure⟩
  | loopEnds hruns _ _ =>
    cases htask
    obtain ⟨rfl, -⟩ := h.yields henv hruns
    exact .nothing henv
  | loopStops hruns _ =>
    cases htask
    obtain ⟨rfl, hyields⟩ := h.yields henv hruns
    exact .of_yields henv hyields fun _ _ => .loopCondition
  | _ => cases htask

end Task.IsSound

theorem Node.WellTyped.isSound {G : Context} {locked : String → Bool} {inLoop : Bool} {n : Node}
    (h : n.WellTyped G locked inLoop) : (Task.node n).IsSound G locked inLoop := by
  induction h with
  | expression h =>
    intro σ e o e' _ henv hruns
    obtain ⟨rfl, hyields⟩ := h.yields henv hruns
    exact .of_yields henv hyields fun _ _ => id
  | declare hfree hname h => exact .declare hfree hname h
  | branch h _ ih => exact .branch h (.body ih)
  | loop h _ ih => exact .loop h (.body ih)
  | breakLoop | continueLoop =>
    intro σ e o e' _ henv hruns
    cases hruns
    exact ⟨henv, fun _ => rfl, nofun⟩

/-- Well-typed statements, run where the names have values of their types, either succeed or come
to a division by a zero, which is the one thing that they report. The names have values of their
types ever after. -/
theorem type_soundness (G : Context) (p : Program) (m m' : Machine) (limit : Nat)
    (evaluation : Evaluation)
    (hp : ∀ n ∈ p, n.WellTyped G m.environment.isLocked false)
    (henv : m.environment.Models G) (h : p.run limit m = some (evaluation, m')) :
    (evaluation.isOk = true ∨ ∃ d, evaluation.diagnostics = [d] ∧
      DividesByZero m.scopes (.body p) m.environment m'.environment d) ∧
    m'.environment.Models G := by
  induction p generalizing m evaluation with
  | nil =>
    cases h
    exact ⟨.inl rfl, henv⟩
  | cons root roots ih =>
    obtain ⟨o, env₁, -, hruns, hends⟩ := Program.exists_of_run_cons h
    have hroot := (hp root List.mem_cons_self).isSound _ _ _ _ rfl henv hruns
    rcases hends with ⟨v, later, hv, hrest, hreports⟩ | ⟨rfl, d, hreport, hends⟩
    · have htyped : ∀ n ∈ roots, n.WellTyped G env₁.isLocked false := by
        rw [hruns.isLocked_eq]
        exact fun n hn => hp n (List.mem_cons_of_mem root hn)
      obtain ⟨hends, hmodels⟩ := ih ⟨env₁, m.scopes⟩ later htyped hroot.models hrest
      rw [Evaluation.isOk, hreports]
      refine ⟨hends.imp_right ?_, hmodels⟩
      rintro ⟨d, hd, hzero⟩
      exact ⟨d, hd, hzero.imp fun _ _ => .later hruns hv⟩
    · refine ⟨.inr ⟨d, hreport, ?_⟩, hroot.models⟩
      rcases hends with rfl | ⟨rfl, -⟩ | ⟨rfl, -⟩
      · exact (hroot.failure d rfl).imp fun _ _ => .first
      -- no signal gets out of a root, which is in no loop
      · exact nomatch hroot.signal rfl
      · exact nomatch hroot.signal rfl

/-- `declare x = 1; while (true) { if (not true) { x; } declare x = x; break; } x / 0;` -/
theorem soundness_of_broken_loop :
    let number (n : Nat) : Node := .literal ⟨.number, toString n, some (.int n), .nowhere⟩
    let x : Token := ⟨.identifier, "x", none, .nowhere⟩
    let t : Node := .access ⟨.identifier, "true", none, .nowhere⟩
    let skip : Node := .branch (.unary .not t .nowhere) [.access x] .nowhere
    let assign : Node := .declare x (.access x) .nowhere
    let p : Program := [.declare x (number 1) .nowhere,
      .loop t [skip, assign, .breakLoop .nowhere] .nowhere,
      .binary (.access x) .divide (number 0) .nowhere]
    let G : Context := fun name =>
      if name = "x" then some .number else if name = "true" then some .boolean else none
    let m : Machine := .start (Environment.initial.bind "x" (.number (.ofInt 0)) false)
    (∀ n ∈ p, n.WellTyped G m.environment.isLocked false) ∧ m.environment.Models G ∧
      ∃ d m', p.run 1 m = some (⟨[], [d]⟩, m') ∧ d.message = "Division by zero" ∧
        DividesByZero [] (.body p) m.environment m'.environment d ∧ m'.environment.Models G := by
  intro number x t skip assign p G m
  have hnumber (n : Nat) : (number n).HasType G .number := .literal rfl
  have hx : (Node.access x).HasType G .number := .access rfl
  have ht : t.HasType G .boolean := .access rfl
  have hp : ∀ n ∈ p, n.WellTyped G m.environment.isLocked false := by
    simp only [p, List.forall_mem_cons]
    refine ⟨.declare rfl rfl (hnumber 1), .loop ht ?_,
      .expression (.binary hx (hnumber 0) rfl), nofun⟩
    simp only [List.forall_mem_cons]
    refine ⟨.branch (.unary ht rfl) ?_, .declare rfl rfl hx, .breakLoop, nofun⟩
    simp only [List.forall_mem_cons]
    exact ⟨.expression hx, nofun⟩
  have henv : m.environment.Models G := by
    intro name τ h
    simp only [G] at h
    split at h
    · next hname =>
      subst hname
      cases h
      exact ⟨_, rfl, .number _⟩
    split at h
    · next hname =>
      subst hname
      cases h
      exact ⟨_, rfl, .boolean _⟩
    · exact nomatch h
  have hrun : p.run 1 m = some (⟨[], [runtimeError [] .nowhere "Division by zero"]⟩, _) := rfl
  obtain ⟨hends, hmodels⟩ := type_soundness G p m _ 1 _ hp henv hrun
  rcases hends with hok | ⟨d, hd, hzero⟩
  · exact nomatch hok
  · obtain rfl := (List.cons.inj hd).1
    exact ⟨hp, henv, _, _, hrun, rfl, hzero, hmodels⟩

end Scriptlet
