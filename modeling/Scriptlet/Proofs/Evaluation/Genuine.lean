import Scriptlet.Proofs.Evaluation.Outcome
import Scriptlet.Proofs.Token.Numeral

/-! What an evaluation comes to. A text with defects is not run, so what stands in a tree for a
missing part is never come to: every name that is looked up or declared is a name of the text, and
every literal has a number. -/

namespace Scriptlet

structure Token.IsName (t : Token) (source text : String) : Prop where
  mem : t ∈ (lex source text).tokens
  kind : t.kind = .identifier
  text_ne : t.text ≠ ""
  text_eq : t.text.toList = t.span.slice text.toList

def Node.Genuine (source text : String) : Node → Prop
  | literal token => token ∈ (lex source text).tokens ∧ token.number?.isSome = true
  | access name | declare name _ _ => name.IsName source text
  | missing _ => False
  | _ => True

theorem isName_of_mem_lex {source text : String} {t : Token}
    (h : t ∈ (lex source text).tokens) (hkind : t.kind = .identifier) : t.IsName source text := by
  have hword := mem_words_of_kind h (by simp [hkind])
  obtain ⟨hne, heq⟩ := Lexed.text_of_mem_words hword
  exact ⟨h, hkind, hne, heq⟩

theorem genuine_of_mem_nodes {source text : String}
    (hclean : (parseText source text).diagnostics = []) {n : Node}
    (hn : n ∈ (parseText source text).program.nodes) : n.Genuine source text := by
  have haccounted := parseText_accounted source text
  have hissues := hclean
  rw [haccounted.diagnostics_eq, List.append_eq_nil_iff] at hissues
  have hbacked := haccounted.backed n hn
  rw [hissues.2] at hbacked
  cases n with
  | literal token => exact ⟨hbacked.1, isSome_number?_of_mem_lex hbacked.1 hbacked.2⟩
  | access name => exact isName_of_mem_lex hbacked.1 hbacked.2
  | declare name value s =>
    rcases hbacked with ⟨hmem, hkind⟩ | ⟨d, hd, -⟩
    · exact isName_of_mem_lex hmem hkind
    · exact absurd hd List.not_mem_nil
  | missing s => exact missing_not_mem_nodes hclean s hn
  | unary | binary | group | branch | loop | breakLoop | continueLoop => trivial

/-- The run of the program comes to the node: the roots before one of them run to their ends, and
the run of that one comes to it. -/
def Program.Reaches (p : Program) (env : Environment) (n : Node) : Prop :=
  ∃ before root after vs e σ,
    p = before ++ root :: after ∧ Completes before env vs e ∧ Visits [] (.node root) e σ n

theorem Program.Reaches.mem_nodes {p : Program} {env : Environment} {n : Node}
    (h : p.Reaches env n) : n ∈ p.nodes := by
  obtain ⟨before, root, after, _, _, _, rfl, -, hvisits⟩ := h
  exact Program.mem_nodes.2 ⟨root, by simp, hvisits.mem_nodes⟩

theorem straySignal_opensWith (m : Machine) (word : Keyword) (s : Span) :
    (m.straySignal word s).OpensWith "'" := by
  simp [Diagnostic.OpensWith, Machine.straySignal, Machine.diagnostic, toString]

theorem strayDiagnostic_opensWith (c : Char) (s : Span) :
    (Lexed.strayDiagnostic c s).OpensWith "'" := by
  unfold Lexed.strayDiagnostic
  split <;> simp [Diagnostic.OpensWith, toString]

theorem not_opensWith_of_mem_parseText {source text : String} {d : Diagnostic}
    (hd : d ∈ (parseText source text).diagnostics) : ¬ d.OpensWith "Invalid number literal" := by
  have haccounted := parseText_accounted source text
  rw [haccounted.diagnostics_eq] at hd
  rcases List.mem_append.1 hd with hd | hd
  · obtain ⟨_, c, _, _, rfl⟩ := Lexed.exists_of_mem_diagnostics hd
    exact (strayDiagnostic_opensWith c _).not
  · obtain ⟨_, hcomplaint⟩ := haccounted.complaint d hd
    exact hcomplaint.opensWith.not

theorem not_opensWith_of_interrupted {source text : String} {env env' : Environment}
    {vs : List Value} {d : Diagnostic} (hclean : (parseText source text).diagnostics = [])
    (h : Interrupted (parseText source text).program env vs d env') :
    ¬ d.OpensWith "Invalid number literal" := by
  obtain ⟨before, root, after, e, hprogram, hbefore, hraises⟩ := h
  cases hraises with
  | breaks | continues => exact (straySignal_opensWith _ _ _).not
  | fails h =>
    intro hd
    obtain ⟨σ, n, hvisits, hfault⟩ := h.blames d rfl
    obtain ⟨token, rfl, hnumber⟩ := hfault.of_opensWith hd
    have hreaches : (parseText source text).program.Reaches env (.literal token) :=
      ⟨before, root, after, vs, e, σ, hprogram, hbefore, hvisits⟩
    have hgenuine := (genuine_of_mem_nodes hclean hreaches.mem_nodes).2
    rw [hnumber] at hgenuine
    exact nomatch hgenuine

theorem not_opensWith_of_mem_diagnostics {source text : String} {limit : Nat}
    {env env' : Environment} {e : Evaluation}
    (h : evaluateText limit source text env = some (e, env')) {d : Diagnostic}
    (hd : d ∈ e.diagnostics) : ¬ d.OpensWith "Invalid number literal" := by
  obtain ⟨ending, hending⟩ := exists_ending h
  cases ending with
  | rejected =>
    rw [hending.2.1, ← (parseText_accounted source text).diagnostics_eq] at hd
    exact not_opensWith_of_mem_parseText hd
  | completed =>
    rw [hending.1] at hd
    exact absurd hd List.not_mem_nil
  | interrupted =>
    obtain ⟨_, hone, -, hclean, hinterrupted⟩ := hending
    rw [hone] at hd
    obtain rfl := List.mem_singleton.1 hd
    exact not_opensWith_of_interrupted hclean hinterrupted

/-- What a defect leaves in the tree is reported and never run. The missing expressions of a program
are, from left to right, those that the grammar reports, and a declared name that is not one of the
tokens is reported as well. So a text with a defect is not run, and the run of one without comes to
no missing expression, looks up and declares names of the text only, and finds every literal to
have a number. -/
theorem recovery_reported_and_never_run :
    (∀ ts ds, ts ≠ [] → ∃ issues, (parse ts ds).diagnostics = ds ++ issues ∧
      missingSpans (parse ts ds).program.nodes =
        (issues.filter (·.OpensWith "Expected expression, found ")).map Diagnostic.span ∧
      ∀ name value s, .declare name value s ∈ (parse ts ds).program.nodes → name ∉ ts →
        ∃ d ∈ issues, d.OpensWith "Expected variable name " ∧ d.span = name.span) ∧
    ∀ source text env,
      ((parseText source text).diagnostics ≠ [] → ∀ limit,
        evaluateText limit source text env =
          some (⟨[], (parseText source text).diagnostics⟩, env)) ∧
      ((parseText source text).diagnostics = [] → ∀ n,
        (parseText source text).program.Reaches env n → n.Genuine source text) ∧
      ∀ limit e env', evaluateText limit source text env = some (e, env') →
        ∀ d ∈ e.diagnostics, ¬ d.OpensWith "Invalid number literal" := by
  refine ⟨fun ts ds hts => ?_, fun source text env => ⟨?_, ?_, ?_⟩⟩
  · obtain ⟨issues, haccounted, -⟩ := exists_accounted hts ds
    refine ⟨issues, haccounted.diagnostics_eq, haccounted.missingSpans_eq, ?_⟩
    intro name value s hdeclare hname
    rcases haccounted.backed _ hdeclare with ⟨hmem, -⟩ | hreported
    · exact absurd hmem hname
    · exact hreported
  · exact fun hdefects limit => evaluateText_of_defects hdefects limit env
  · exact fun hclean n hreaches => genuine_of_mem_nodes hclean hreaches.mem_nodes
  · exact fun limit e env' h d hd => not_opensWith_of_mem_diagnostics h hd

/-- `declare ;` lacks a name and a value and reports both. `;` lacks a statement and is not run.
`x;` lacks nothing, and comes to a name that it does not find. -/
theorem recovery_of_bare_declare :
    let word : Token := ⟨.keyword, "declare", some (.keyword .declare), .nowhere⟩
    let mark : Token := ⟨.semicolon, ";", none, .nowhere⟩
    let name : Token := ⟨.identifier, "", none, .nowhere⟩
    let root := Node.declare name (.missing .nowhere) (Span.nowhere.through .nowhere)
    ([word, mark] ≠ [] ∧ root ∈ (parse [word, mark] []).program.nodes ∧ name ∉ [word, mark] ∧
      ∃ d ∈ (parse [word, mark] []).diagnostics,
        d.OpensWith "Expected variable name " ∧ d.span = name.span) ∧
    ((parseText "s" ";").diagnostics ≠ [] ∧
      evaluateText 0 "s" ";" .initial =
        some (⟨[], (parseText "s" ";").diagnostics⟩, .initial)) ∧
    ∃ x d, (parseText "s" "x;").diagnostics = [] ∧
      (parseText "s" "x;").program.Reaches .initial (.access x) ∧ x.IsName "s" "x;" ∧
      evaluateText 0 "s" "x;" .initial = some (⟨[], [d]⟩, .initial) ∧
      ¬ d.OpensWith "Invalid number literal" := by
  intro word mark name root
  obtain ⟨hlists, htexts⟩ := recovery_reported_and_never_run
  have hmark : pieces ";".toList = [.lexeme [';']] :=
    (pieces_semicolon []).trans (congrArg _ pieces_nil)
  refine ⟨?_, ?_, ?_⟩
  · have hprogram : (parse [word, mark] []).program = [root] := by cbv
    have hroot : root ∈ (parse [word, mark] []).program.nodes := by
      rw [hprogram, Program.nodes_cons]
      exact List.mem_append_left _ root.self_mem_nodes
    have hname : name ∉ [word, mark] := by simp [name, word, mark]
    obtain ⟨issues, hissues, -, hdeclare⟩ := hlists [word, mark] [] (List.cons_ne_nil _ _)
    rw [List.nil_append] at hissues
    rw [hissues]
    exact ⟨List.cons_ne_nil _ _, hroot, hname, hdeclare _ _ _ hroot hname⟩
  · have hdefects : (parseText "s" ";").diagnostics ≠ [] := by
      intro hclean
      obtain ⟨-, hspelled⟩ := parseText_eq_iff.1 (congrArg (Parsed.mk _) hclean)
      rw [hmark] at hspelled
      have hkind := (hspelled.starts _ rfl).kind
      exact absurd hkind (by decide)
    exact ⟨hdefects, (htexts "s" ";" .initial).1 hdefects 0⟩
  · let x := Token.ofText ['x'] (.along (.start "s") ['x'])
    have hparse : parseText "s" "x;" = ⟨[.access x], []⟩ := parseText_name "s"
    have hclean : (parseText "s" "x;").diagnostics = [] := by rw [hparse]
    have hreaches : (parseText "s" "x;").program.Reaches .initial (.access x) :=
      ⟨[], _, [], [], _, [], congrArg Parsed.program hparse, .done, .self⟩
    let d := runtimeError [] x.span s!"Variable '{x.text}' is not declared"
      (some s!"Declare it first: declare {x.text} = ...;")
    have hrun : evaluateText 0 "s" "x;" .initial = some (⟨[], [d]⟩, .initial) := by
      rw [evaluateText_eq hparse]
      rfl
    obtain ⟨-, hgenuine, hmessage⟩ := htexts "s" "x;" .initial
    exact ⟨_, _, hclean, hreaches, hgenuine hclean _ hreaches, hrun,
      hmessage 0 _ _ hrun _ List.mem_cons_self⟩

end Scriptlet
