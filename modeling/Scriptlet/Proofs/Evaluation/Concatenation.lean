import Scriptlet.Proofs.Evaluation.Relocation
import Scriptlet.Proofs.Evaluation.Semantics
import Scriptlet.Proofs.Syntax.Concatenation

/-! One text behind another. A session that is given two texts one after the other ends like
one that is given both at once: the second text runs in what the first one leaves, unless the
first one fails, and its places are moved behind the first. -/

namespace Scriptlet

namespace Evaluation

def andThen {σ : Type} (first : Option (Evaluation × σ))
    (next : σ → Option (Evaluation × σ)) : Option (Evaluation × σ) :=
  match first with
  | none => none
  | some (⟨vs, []⟩, s) => (next s).map fun (e, s) => (⟨vs ++ e.values, e.diagnostics⟩, s)
  | some (e, s) => some (e, s)

end Evaluation

namespace Program

theorem run_append (limit : Nat) (p q : Program) (m : Machine) :
    Program.run limit (p ++ q) m = Evaluation.andThen (p.run limit m) (q.run limit) := by
  induction p generalizing m with
  | nil =>
    simp only [List.nil_append, run, Evaluation.andThen]
    rw [Option.map_id_fun']
    rfl
  | cons n ns ih =>
    rw [List.cons_append, run, run]
    rcases n.evaluate limit m with _ | ⟨outcome, m⟩
    · rfl
    cases outcome with
    | value v =>
      simp only [ih]
      rcases run limit ns m with _ | ⟨⟨vs, _ | ⟨d, ds⟩⟩, m⟩
      · rfl
      · simp [Evaluation.andThen, Option.map_map, Function.comp_def]
      · rfl
    | nothing => exact ih m
    | breaks | continues | fails => rfl

theorem scopes_run {limit : Nat} {p : Program} {m m' : Machine} {e : Evaluation}
    (h : p.run limit m = some (e, m')) : m'.scopes = m.scopes := by
  induction p generalizing m e with
  | nil =>
    cases h
    rfl
  | cons n ns ih =>
    rw [run] at h
    rcases hn : n.evaluate limit m with _ | ⟨outcome, m₁⟩
    · simp [hn] at h
    have hscopes : m₁.scopes = m.scopes := by
      obtain ⟨env, rfl, -⟩ := n.realizes limit m.scopes m.environment outcome m₁ hn
      rfl
    rw [hn] at h
    cases outcome with
    | value v =>
      obtain ⟨⟨e₁, m₂⟩, hrun, heq⟩ := Option.map_eq_some_iff.1 h
      cases heq
      exact (ih hrun).trans hscopes
    | nothing => exact (ih h).trans hscopes
    | breaks | continues | fails =>
      cases h
      exact hscopes

end Program

theorem evaluateText_eq {source text : String} {p : Program} (h : parseText source text = ⟨p, []⟩)
    (limit : Nat) (env : Environment) :
    evaluateText limit source text env =
      (p.run limit (.start env)).map fun (e, m) => (e, m.environment) := by
  rw [evaluateText, h]
  rfl

theorem evaluateText_append_eq {source s₁ s₂ : String}
    (h₁ : (parseText source s₁).diagnostics = []) (h₂ : (parseText source s₂).diagnostics = [])
    {mark : Token} (hmark : (Tokens.proper (lex source s₁).tokens).getLast? = some mark)
    (hkind : mark.kind = .semicolon) (limit : Nat) (c : Environment) :
    evaluateText limit source (s₁ ++ s₂) c =
      Evaluation.andThen (evaluateText limit source s₁ c) fun c₁ =>
        (evaluateText limit source s₂ c₁).map fun (e, c') =>
          (e.relocate ((Position.start source).advanceBy s₁.toList).past, c') := by
  obtain ⟨p₁, hparse₁⟩ : ∃ p, parseText source s₁ = ⟨p, []⟩ := ⟨_, congrArg (Parsed.mk _) h₁⟩
  obtain ⟨p₂, hparse₂⟩ : ∃ p, parseText source s₂ = ⟨p, []⟩ := ⟨_, congrArg (Parsed.mk _) h₂⟩
  have hparse := parseText_append hparse₁ hparse₂ hmark hkind
  rw [evaluateText_eq hparse, evaluateText_eq hparse₁, Program.run_append]
  rcases hrun : p₁.run limit (.start c) with _ | ⟨⟨vs, ds⟩, env, scopes⟩
  · rfl
  obtain rfl : scopes = [] := Program.scopes_run hrun
  cases ds with
  | nil =>
    simp only [Evaluation.andThen, Option.map_some, Program.run_relocate, evaluateText_eq hparse₂,
      Option.map_map]
    rfl
  | cons d ds => rfl

/-- Two texts that are read without an issue, the first of them up to a semicolon, are evaluated
together as one after the other: after a first text that ends well, the two end exactly if the
second one ends in what the first one left, with the values of both, and with its diagnostics
moved behind the first; if the first one fails, that is all. -/
theorem evaluateText_append {source s₁ s₂ : String}
    (h₁ : (parseText source s₁).diagnostics = []) (h₂ : (parseText source s₂).diagnostics = [])
    {mark : Token} (hmark : (Tokens.proper (lex source s₁).tokens).getLast? = some mark)
    (hkind : mark.kind = .semicolon) (c c₁ : Environment) (e₁ : Evaluation)
    (hfirst : ∃ limit, evaluateText limit source s₁ c = some (e₁, c₁)) :
    (e₁.diagnostics = [] → ∀ e c',
      (∃ limit, evaluateText limit source (s₁ ++ s₂) c = some (e, c')) ↔
        ∃ e₂, (∃ limit, evaluateText limit source s₂ c₁ = some (e₂, c')) ∧
          e = ⟨e₁.values ++ e₂.values, e₂.diagnostics.map
            (Diagnostic.relocate ((Position.start source).advanceBy s₁.toList).past)⟩) ∧
    (e₁.diagnostics ≠ [] → ∀ e c',
      (∃ limit, evaluateText limit source (s₁ ++ s₂) c = some (e, c')) ↔ e = e₁ ∧ c' = c₁) := by
  have happend := evaluateText_append_eq h₁ h₂ hmark hkind
  obtain ⟨k, hk⟩ := hfirst
  -- whatever bound is enough for both texts is enough for the first one alone
  have hbound {limit : Nat} {r : Evaluation × Environment}
      (h : evaluateText limit source (s₁ ++ s₂) c = some r) :
      evaluateText limit source s₁ c = some (e₁, c₁) := by
    rw [happend] at h
    rcases hrun : evaluateText limit source s₁ c with _ | r₁
    · simp [hrun, Evaluation.andThen] at h
    · rw [eq_of_outlasts (fun hle => evaluateText_outlasts hle source s₁ c) hk hrun]
  obtain ⟨vs, ds⟩ := e₁
  constructor
  · rintro rfl e c'
    constructor
    · rintro ⟨limit, h⟩
      have hrun := hbound h
      rw [happend, hrun] at h
      simp only [Evaluation.andThen, Option.map_map, Option.map_eq_some_iff] at h
      obtain ⟨⟨e₂, c₂⟩, hsecond, heq⟩ := h
      cases heq
      exact ⟨e₂, ⟨limit, hsecond⟩, rfl⟩
    · rintro ⟨e₂, ⟨limit, h⟩, rfl⟩
      refine ⟨max k limit, ?_⟩
      rw [happend, evaluateText_outlasts (Nat.le_max_left k limit) _ _ _ _ hk]
      simp only [Evaluation.andThen]
      rw [evaluateText_outlasts (Nat.le_max_right k limit) _ _ _ _ h]
      rfl
  · intro hds e c'
    obtain ⟨d, ds, rfl⟩ := List.exists_cons_of_ne_nil hds
    constructor
    · rintro ⟨limit, h⟩
      have hrun := hbound h
      rw [happend, hrun] at h
      cases h
      exact ⟨rfl, rfl⟩
    · rintro ⟨rfl, rfl⟩
      refine ⟨k, ?_⟩
      rw [happend, hk]
      rfl

theorem pieces_declare_true :
    pieces "declare x = true;".toList =
      [.lexeme "declare".toList, .blank ' ', .lexeme ['x'], .blank ' ', .lexeme ['='], .blank ' ',
        .lexeme "true".toList, .lexeme [';']] := by
  have hvalue : pieces ('t' :: (['r', 'u', 'e'] ++ [';'])) =
      .lexeme "true".toList :: pieces [';'] :=
    pieces_eq_lexeme (by decide) (by decide)
  have hname : pieces (' ' :: 'x' :: ' ' :: '=' :: ' ' :: "true;".toList) =
      .blank ' ' :: .lexeme ['x'] :: .blank ' ' :: .lexeme ['='] :: .blank ' ' ::
        pieces "true;".toList := by
    rw [pieces_blank, pieces_single, pieces_blank, pieces_single, pieces_blank] <;> decide
  have hword : pieces ('d' :: (['e', 'c', 'l', 'a', 'r', 'e'] ++ " x = true;".toList)) =
      .lexeme "declare".toList :: pieces " x = true;".toList :=
    pieces_eq_lexeme (by decide) (by decide)
  rw [pieces_semicolon, pieces_nil] at hvalue
  exact hword.trans (congrArg _ (hname.trans (congrArg (_ :: _ :: _ :: _ :: _ :: ·) hvalue)))

theorem pieces_name : pieces "x;".toList = [.lexeme ['x'], .lexeme [';']] := by
  have hname : pieces ('x' :: [';']) = .lexeme ['x'] :: pieces [';'] :=
    pieces_single (by decide) (by decide)
  rwa [pieces_semicolon, pieces_nil] at hname

theorem parseText_declare_true (source : String) :
    let token (text : List Char) (i : Nat) : Token :=
      .ofText text ⟨⟨source, i, 0, i⟩, ⟨source, i + text.length, 0, i + text.length⟩⟩
    parseText source "declare x = true;" =
      ⟨[.declare (token ['x'] 8) (.access (token "true".toList 12))
        ⟨⟨source, 0, 0, 0⟩, ⟨source, 16, 0, 16⟩⟩], []⟩ := by
  intro token
  refine parseText_eq_iff.2 ⟨by rw [pieces_declare_true]; simp [Piece.isStray], ?_⟩
  rw [pieces_declare_true]
  have haccess : Spelled (.tier .primary _) [token "true".toList 12] := .access rfl
  have hdeclare : Spelled (.expression _) [token "declare".toList 0, token ['x'] 8, token ['='] 10,
      token "true".toList 12] := .declare rfl rfl rfl (.logical (haccess.of_primary .logical))
  have hstatement : Spelled (.statement _) (_ ++ [token [';'] 16]) := .closed hdeclare rfl
  exact .next hstatement .finished

theorem parseText_name (source : String) :
    parseText source "x;" =
      ⟨[.access (.ofText ['x'] ⟨⟨source, 0, 0, 0⟩, ⟨source, 1, 0, 1⟩⟩)], []⟩ := by
  refine parseText_eq_iff.2 ⟨by rw [pieces_name]; simp [Piece.isStray], ?_⟩
  rw [pieces_name]
  have haccess : Spelled (.tier .primary _)
      [.ofText ['x'] ⟨⟨source, 0, 0, 0⟩, ⟨source, 1, 0, 1⟩⟩] := .access rfl
  exact .next (.closed (.logical (haccess.of_primary .logical)) rfl) .finished

theorem evaluateText_append_of_declare :
    let after := Environment.initial.bind "x" (.boolean true) false
    (evaluateText 0 "s" "declare x = true;" .initial = some (⟨[], []⟩, after) ∧
      ∃ limit, evaluateText limit "s" ("declare x = true;" ++ "x;") .initial =
        some (⟨[.boolean true], []⟩, after)) ∧
    ∃ d, evaluateText 0 "s" "x;" .initial = some (⟨[], [d]⟩, .initial) ∧
      ∃ limit, evaluateText limit "s" ("x;" ++ "declare x = true;") .initial =
        some (⟨[], [d]⟩, .initial) := by
  intro after
  have hclean : (parseText "s" "declare x = true;").diagnostics = [] :=
    congrArg Parsed.diagnostics (parseText_declare_true "s")
  have hcleanName : (parseText "s" "x;").diagnostics = [] :=
    congrArg Parsed.diagnostics (parseText_name "s")
  have hmark : (Tokens.proper (lex "s" "declare x = true;").tokens).getLast? =
      some (.ofText [';'] ⟨⟨"s", 16, 0, 16⟩, ⟨"s", 17, 0, 17⟩⟩) := by
    rw [proper_lex, pieces_declare_true]
    rfl
  have hmarkName : (Tokens.proper (lex "s" "x;").tokens).getLast? =
      some (.ofText [';'] ⟨⟨"s", 1, 0, 1⟩, ⟨"s", 2, 0, 2⟩⟩) := by
    rw [proper_lex, pieces_name]
    rfl
  have hdeclare : evaluateText 0 "s" "declare x = true;" .initial = some (⟨[], []⟩, after) := by
    rw [evaluateText_eq (parseText_declare_true "s")]
    rfl
  have hread : evaluateText 0 "s" "x;" after = some (⟨[.boolean true], []⟩, after) := by
    rw [evaluateText_eq (parseText_name "s")]
    rfl
  obtain ⟨d, hfails⟩ : ∃ d, evaluateText 0 "s" "x;" .initial = some (⟨[], [d]⟩, .initial) := by
    rw [evaluateText_eq (parseText_name "s")]
    exact ⟨_, rfl⟩
  have hdeclared := (evaluateText_append hclean hcleanName hmark rfl .initial after _
    ⟨0, hdeclare⟩).1 rfl
  have hundeclared := (evaluateText_append hcleanName hclean hmarkName rfl .initial .initial _
    ⟨0, hfails⟩).2 (List.cons_ne_nil d [])
  exact ⟨⟨hdeclare, (hdeclared _ _).2 ⟨_, ⟨0, hread⟩, rfl⟩⟩, d, hfails,
    (hundeclared _ _).2 ⟨rfl, rfl⟩⟩

end Scriptlet
