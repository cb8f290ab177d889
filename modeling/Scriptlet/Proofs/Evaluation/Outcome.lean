import Scriptlet.Proofs.Evaluation.Blame
import Scriptlet.Proofs.Evaluation.Concatenation
import Scriptlet.Proofs.Token.Coverage

/-! How an evaluation ends. A text with defects is not run at all; a text without runs to its end,
or up to the first statement that fails. Which statements give a value is known from the text. -/

namespace Scriptlet

def Node.prints : Node → Bool
  | group inner _ => inner.prints
  | literal _ | access _ | unary .. | binary .. => true
  | _ => false

theorem Runs.prints {σ : List Scope} {task : Task} {e e' : Environment} {o : Outcome}
    (h : Runs σ task e o e') (hmissing : ∀ s, .missing s ∉ task.nodes) :
    match task, o with
    | .node n, .value _ => n.prints = true
    | .node n, .nothing => n.prints = false
    | _, _ => True := by
  induction h with
  | literal | access | unary | binary | declare | branchSkips | loopBreaks | loopEnds => rfl
  | @group _ n s _ o _ _ ih =>
    have hinner : ∀ s', .missing s' ∉ n.nodes := by
      intro s' hs'
      refine hmissing s' ?_
      rw [Task.nodes, Node.nodes_group]
      exact List.mem_cons_of_mem _ hs'
    have hprints := ih hinner
    cases o <;> exact hprints
  -- the only node that gives a value without having the form for it
  | missing => exact absurd List.mem_cons_self (hmissing _)
  | @branch _ _ _ _ _ _ _ _ _ o' _ _ _ hbody =>
    cases o' with
    | value v => exact absurd rfl (hbody.body_outcome v)
    | nothing => rfl
    | breaks | continues | fails => trivial
  | loopAgain _ _ _ _ _ _ _ _ ih => exact ih hmissing
  | @unaryStops _ _ _ _ _ _ o _ ho | @leftStops _ _ _ _ _ _ _ o _ ho
  | @rightStops _ _ _ _ _ _ _ _ _ o _ _ _ _ ho | @declareStops _ _ _ _ _ _ o _ ho
  | @branchStops _ _ _ _ _ _ o _ ho | @loopStops _ _ _ _ _ _ o _ ho =>
    cases o with
    | value | nothing => cases ho
    | breaks | continues | fails => trivial
  | _ => trivial

/-- The roots of a program run one after the other, each to its end. Those that have the form for
it give one value each. -/
inductive Completes : Program → Environment → List Value → Environment → Prop
  | done {e} : Completes [] e [] e
  | printed {root roots e e₁ e' v vs} (hroot : root.prints = true)
      (h : Runs [] (.node root) e (.value v) e₁) (hrest : Completes roots e₁ vs e') :
      Completes (root :: roots) e (v :: vs) e'
  | silent {root roots e e₁ e' vs} (hroot : root.prints = false)
      (h : Runs [] (.node root) e .nothing e₁) (hrest : Completes roots e₁ vs e') :
      Completes (root :: roots) e vs e'

/-- A root fails, or signals although there is no loop around it. -/
inductive Raises (root : Node) (e : Environment) : Diagnostic → Environment → Prop
  | fails {d e'} (h : Runs [] (.node root) e (.fails d) e') : Raises root e d e'
  | breaks {e'} (h : Runs [] (.node root) e .breaks e') :
      Raises root e ((Machine.start e').straySignal .breakWord root.span) e'
  | continues {e'} (h : Runs [] (.node root) e .continues e') :
      Raises root e ((Machine.start e').straySignal .continueWord root.span) e'

def Interrupted (p : Program) (e : Environment) (vs : List Value) (d : Diagnostic)
    (e' : Environment) : Prop :=
  ∃ before root after e₁,
    p = before ++ root :: after ∧ Completes before e vs e₁ ∧ Raises root e₁ d e'

theorem Raises.kind {root : Node} {e e' : Environment} {d : Diagnostic} (h : Raises root e d e') :
    d.kind = .runtimeError := by
  cases h with
  | fails h =>
    obtain ⟨_, _, _, hfault⟩ := h.blames d rfl
    exact hfault.kind
  | breaks | continues => rfl

namespace Interrupted

theorem cons {root : Node} {roots : Program} {e e₁ e' : Environment} {vs ws : List Value}
    {d : Diagnostic} (h : Interrupted roots e₁ vs d e')
    (hroot : ∀ before e₂, Completes before e₁ vs e₂ → Completes (root :: before) e ws e₂) :
    Interrupted (root :: roots) e ws d e' := by
  obtain ⟨before, last, after, e₂, rfl, hbefore, hraises⟩ := h
  exact ⟨root :: before, last, after, e₂, rfl, hroot before e₂ hbefore, hraises⟩

theorem kind {p : Program} {e e' : Environment} {vs : List Value} {d : Diagnostic}
    (h : Interrupted p e vs d e') : d.kind = .runtimeError := by
  obtain ⟨_, _, _, _, _, _, hraises⟩ := h
  exact hraises.kind

theorem head {root : Node} {e e' : Environment} {d : Diagnostic} (h : Raises root e d e')
    (roots : Program) : Interrupted (root :: roots) e [] d e' :=
  ⟨[], root, roots, e, rfl, .done, h⟩

end Interrupted

namespace Program

theorem completes_or_interrupted {limit : Nat} {p : Program} {e : Environment} {r : Evaluation}
    {m : Machine} (hmissing : ∀ s, .missing s ∉ p.nodes)
    (h : p.run limit (.start e) = some (r, m)) :
    Completes p e r.values m.environment ∧ r.diagnostics = [] ∨
      ∃ d, Interrupted p e r.values d m.environment ∧ r.diagnostics = [d] := by
  induction p generalizing e r with
  | nil =>
    cases h
    exact .inl ⟨.done, rfl⟩
  | cons root roots ih =>
    simp only [nodes_cons, List.mem_append, not_or] at hmissing
    have hroots : ∀ s, .missing s ∉ nodes roots := fun s => (hmissing s).2
    rw [run] at h
    rcases hrun : root.evaluate limit (.start e) with _ | ⟨o, m₁⟩
    · simp [hrun] at h
    obtain ⟨e₁, rfl, hruns⟩ := root.realizes limit [] e o m₁ hrun
    have hprints := hruns.prints fun s => (hmissing s).1
    simp only [hrun] at h
    cases o with
    | value v =>
      obtain ⟨⟨r₁, m₂⟩, hrest, heq⟩ := Option.map_eq_some_iff.1 h
      cases heq
      have hcons {before e₂ vs} (h : Completes before e₁ vs e₂) :
          Completes (root :: before) e (v :: vs) e₂ := .printed hprints hruns h
      rcases ih hroots hrest with ⟨hcompletes, hnone⟩ | ⟨d, hinterrupted, hone⟩
      · exact .inl ⟨hcons hcompletes, hnone⟩
      · exact .inr ⟨d, hinterrupted.cons fun _ _ => hcons, hone⟩
    | nothing =>
      have hcons {before e₂ vs} (h : Completes before e₁ vs e₂) :
          Completes (root :: before) e vs e₂ := .silent hprints hruns h
      rcases ih hroots h with ⟨hcompletes, hnone⟩ | ⟨d, hinterrupted, hone⟩
      · exact .inl ⟨hcons hcompletes, hnone⟩
      · exact .inr ⟨d, hinterrupted.cons fun _ _ => hcons, hone⟩
    -- whatever is not carried on is the last thing to happen
    | breaks =>
      cases h
      exact .inr ⟨_, .head (.breaks hruns) roots, rfl⟩
    | continues =>
      cases h
      exact .inr ⟨_, .head (.continues hruns) roots, rfl⟩
    | fails d =>
      cases h
      exact .inr ⟨d, .head (.fails hruns) roots, rfl⟩

end Program

theorem Completes.settles {p : Program} {e e' : Environment} {vs : List Value}
    (h : Completes p e vs e') :
    Settles (fun l => Program.run l p (.start e)) (⟨vs, []⟩, .start e') := by
  induction h with
  | done => exact .of_eq fun _ => rfl
  | printed _ h _ ih | silent _ h _ ih =>
    obtain ⟨k, hk⟩ := h.settles.and ih
    refine ⟨k, fun l hl => ?_⟩
    obtain ⟨hroot, hrest⟩ := hk l hl
    have hroot : Node.evaluate l _ (.start _) = some (_, .start _) := hroot
    simp only [Program.run, hroot, hrest, Option.map_some]

theorem Raises.settles {root : Node} {e e' : Environment} {d : Diagnostic}
    (h : Raises root e d e') (after : Program) :
    Settles (fun l => Program.run l (root :: after) (.start e)) (⟨[], [d]⟩, .start e') := by
  cases h with
  | fails h | breaks h | continues h =>
    obtain ⟨k, hk⟩ := h.settles
    refine ⟨k, fun l hl => ?_⟩
    have hroot : root.evaluate l (.start e) = some (_, .start e') := hk l hl
    simp only [Program.run, hroot]

theorem Interrupted.settles {p : Program} {e e' : Environment} {vs : List Value} {d : Diagnostic}
    (h : Interrupted p e vs d e') :
    Settles (fun l => Program.run l p (.start e)) (⟨vs, [d]⟩, .start e') := by
  obtain ⟨before, root, after, e₁, rfl, hbefore, hraises⟩ := h
  obtain ⟨k, hk⟩ := hbefore.settles.and (hraises.settles after)
  refine ⟨k, fun l hl => ?_⟩
  obtain ⟨hfirst, hrest⟩ := hk l hl
  simp only [Program.run_append, hfirst, Evaluation.andThen, hrest, Option.map_some,
    List.append_nil]

theorem parseText_accounted (source text : String) :
    (parseText source text).Accounted (lex source text).tokens (lex source text).diagnostics
      (parse (lex source text).tokens []).diagnostics := by
  obtain ⟨issues, haccounted, rfl⟩ :=
    exists_accounted (lex_tokens_ne_nil source text) (lex source text).diagnostics
  exact haccounted

theorem kind_of_mem_parseText_diagnostics {source text : String} {d : Diagnostic}
    (h : d ∈ (parseText source text).diagnostics) : d.kind ≠ .runtimeError := by
  have haccounted := parseText_accounted source text
  rw [haccounted.diagnostics_eq] at h
  rcases List.mem_append.1 h with h | h
  · rcases kind_of_mem_lex_diagnostics h with hkind | hkind <;> simp [hkind]
  · obtain ⟨_, hcomplaint⟩ := haccounted.complaint d h
    simp [hcomplaint.kind]

theorem missing_not_mem_nodes {source text : String}
    (h : (parseText source text).diagnostics = []) (s : Span) :
    .missing s ∉ (parseText source text).program.nodes := by
  have haccounted := parseText_accounted source text
  have hspans := haccounted.missingSpans_eq
  rw [haccounted.diagnostics_eq, List.append_eq_nil_iff] at h
  rw [h.2, reportedSpans_nil] at hspans
  intro hs
  have hmem : s ∈ missingSpans (parseText source text).program.nodes :=
    List.mem_filterMap.2 ⟨_, hs, rfl⟩
  rw [hspans] at hmem
  exact List.not_mem_nil hmem

theorem evaluateText_of_clean {source text : String}
    (h : (parseText source text).diagnostics = []) (limit : Nat) (env : Environment) :
    evaluateText limit source text env =
      ((parseText source text).program.run limit (.start env)).map
        fun (e, m) => (e, m.environment) :=
  evaluateText_eq (congrArg (Parsed.mk (parseText source text).program) h) limit env

theorem evaluateText_of_defects {source text : String}
    (h : (parseText source text).diagnostics ≠ []) (limit : Nat) (env : Environment) :
    evaluateText limit source text env = some (⟨[], (parseText source text).diagnostics⟩, env) := by
  obtain ⟨d, ds, hds⟩ := List.exists_cons_of_ne_nil h
  rw [evaluateText, Parsed.evaluate, hds]
  rfl

inductive Ending
  | rejected | completed | interrupted

def Ending.Describes (source text : String) (env : Environment) (e : Evaluation)
    (env' : Environment) : Ending → Prop
  | rejected =>
    e.diagnostics ≠ [] ∧
      e.diagnostics =
        (lex source text).diagnostics ++ (parse (lex source text).tokens []).diagnostics ∧
      (∀ d ∈ e.diagnostics, d.kind ≠ .runtimeError) ∧ e.values = [] ∧ env' = env
  | completed =>
    e.diagnostics = [] ∧ (parseText source text).diagnostics = [] ∧
      Completes (parseText source text).program env e.values env'
  | interrupted =>
    ∃ d, e.diagnostics = [d] ∧ d.kind = .runtimeError ∧
      (parseText source text).diagnostics = [] ∧
      Interrupted (parseText source text).program env e.values d env'

theorem Ending.Describes.unique {source text : String} {env env' : Environment} {e : Evaluation}
    {x y : Ending} (hx : x.Describes source text env e env')
    (hy : y.Describes source text env e env') : x = y := by
  have hrejected : rejected.Describes source text env e env' →
      ¬ interrupted.Describes source text env e env' := by
    rintro ⟨-, -, hkind, -⟩ ⟨d, hd, hruntime, -⟩
    exact hkind d (hd ▸ List.mem_singleton_self d) hruntime
  cases x <;> cases y
  case rejected.rejected | completed.completed | interrupted.interrupted => rfl
  case rejected.completed => exact absurd hy.1 hx.1
  case completed.rejected => exact absurd hx.1 hy.1
  case rejected.interrupted => exact absurd hy (hrejected hx)
  case interrupted.rejected => exact absurd hx (hrejected hy)
  case completed.interrupted =>
    obtain ⟨d, hd, -⟩ := hy
    exact nomatch hx.1.symm.trans hd
  case interrupted.completed =>
    obtain ⟨d, hd, -⟩ := hx
    exact nomatch hy.1.symm.trans hd

theorem exists_ending {limit : Nat} {source text : String} {env env' : Environment}
    {e : Evaluation} (h : evaluateText limit source text env = some (e, env')) :
    ∃ ending : Ending, ending.Describes source text env e env' := by
  by_cases hclean : (parseText source text).diagnostics = []
  · rw [evaluateText_of_clean hclean] at h
    obtain ⟨⟨r, m⟩, hrun, heq⟩ := Option.map_eq_some_iff.1 h
    cases heq
    rcases Program.completes_or_interrupted (missing_not_mem_nodes hclean) hrun with
      ⟨hcompletes, hnone⟩ | ⟨d, hinterrupted, hone⟩
    · exact ⟨.completed, hnone, hclean, hcompletes⟩
    · exact ⟨.interrupted, d, hone, hinterrupted.kind, hclean, hinterrupted⟩
  · rw [evaluateText_of_defects hclean] at h
    cases h
    have hissues := (parseText_accounted source text).diagnostics_eq
    have hkind : ∀ d ∈ (parseText source text).diagnostics, d.kind ≠ .runtimeError :=
      fun _ => kind_of_mem_parseText_diagnostics
    exact ⟨.rejected, hclean, hissues, hkind, rfl, rfl⟩

theorem Ending.Describes.exists_evaluateText {source text : String} {env env' : Environment}
    {e : Evaluation} {ending : Ending} (h : ending.Describes source text env e env') :
    ∃ limit, evaluateText limit source text env = some (e, env') := by
  obtain ⟨vs, ds⟩ := e
  have hrun {ds} (hclean : (parseText source text).diagnostics = [])
      (h : Settles (fun l => (parseText source text).program.run l (.start env))
        (⟨vs, ds⟩, .start env')) :
      ∃ limit, evaluateText limit source text env = some (⟨vs, ds⟩, env') := by
    obtain ⟨k, hk⟩ := h
    have hend : (parseText source text).program.run k (.start env) = some (⟨vs, ds⟩, _) :=
      hk k (Nat.le_refl k)
    refine ⟨k, ?_⟩
    rw [evaluateText_of_clean hclean, hend]
    rfl
  cases ending with
  | rejected =>
    obtain ⟨hdefects, hds, -, hvs, rfl⟩ := h
    obtain rfl : vs = [] := hvs
    obtain rfl : ds = _ := hds
    rw [← (parseText_accounted source text).diagnostics_eq] at hdefects ⊢
    exact ⟨0, evaluateText_of_defects hdefects 0 _⟩
  | completed =>
    obtain ⟨hnone, hclean, hcompletes⟩ := h
    obtain rfl : ds = [] := hnone
    exact hrun hclean hcompletes.settles
  | interrupted =>
    obtain ⟨d, hone, -, hclean, hinterrupted⟩ := h
    obtain rfl : ds = [d] := hone
    exact hrun hclean hinterrupted.settles

/-- The evaluation of a text ends exactly if one of three things describes its end, and then no
other does. Either the text has defects, and is not run. Or all its roots run to their ends. Or
one of them raises a diagnostic after those before it, and the rest are not run. The values are
those of the roots that ran to their ends and have the form for it. -/
theorem evaluateText_iff_existsUnique_ending (source text : String) (env env' : Environment)
    (e : Evaluation) :
    (∃ limit, evaluateText limit source text env = some (e, env')) ↔
      ∃! ending : Ending, ending.Describes source text env e env' := by
  constructor
  · rintro ⟨limit, h⟩
    obtain ⟨ending, hending⟩ := exists_ending h
    exact ⟨ending, hending, fun other hother => hother.unique hending⟩
  · rintro ⟨ending, hending, -⟩
    exact hending.exists_evaluateText

end Scriptlet
