import Scriptlet.Proofs.Evaluation.Enclosure
import Scriptlet.Proofs.Syntax.Layout

/-! The layout of a text. Texts whose tokens differ in their places alone are read alike and run
alike: the same values, the same variables, and the same diagnostics at other places. -/

namespace Scriptlet

structure Evaluation.Alike (a b : Evaluation) : Prop where
  values_eq : a.values = b.values
  diagnostics : List.Forall₂ Diagnostic.Alike a.diagnostics b.diagnostics

def EndAlike {σ : Type} (a b : Option (Evaluation × σ)) : Prop :=
  Option.Rel (fun r s => r.1.Alike s.1 ∧ r.2 = s.2) a b

theorem Evaluation.alike_of_unplaced {a b : Evaluation} (h : a.unplaced = b.unplaced) :
    a.Alike b := by
  have hvalues : a.unplaced.values = b.unplaced.values := congrArg values h
  have hdiagnostics : a.unplaced.diagnostics = b.unplaced.diagnostics := congrArg diagnostics h
  exact ⟨hvalues, forall₂_alike_diagnostics_iff.2 hdiagnostics⟩

namespace EndAlike
variable {σ τ : Type} {a b : Option (Evaluation × σ)}

theorem of_unplaced
    (h : a.map (fun (e, s) => (e.unplaced, s)) = b.map fun (e, s) => (e.unplaced, s)) :
    EndAlike a b := by
  rcases a with _ | ⟨e, s⟩ <;> rcases b with _ | ⟨f, t⟩
  · exact .none
  · cases h
  · cases h
  · obtain ⟨hunplaced, rfl⟩ := Prod.mk.inj (Option.some.inj h)
    exact .some ⟨Evaluation.alike_of_unplaced hunplaced, rfl⟩

theorem map (h : EndAlike a b) (f : σ → τ) :
    EndAlike (a.map fun (e, s) => (e, f s)) (b.map fun (e, s) => (e, f s)) := by
  cases h with
  | none => exact .none
  | some h => exact .some ⟨h.1, congrArg f h.2⟩

end EndAlike

theorem Program.run_alike {p q : Program} (h : p.map Node.unplaced = q.map Node.unplaced)
    (limit : Nat) (m : Machine) : EndAlike (p.run limit m) (q.run limit m) :=
  .of_unplaced (run_unplaced h limit m)

theorem Parsed.evaluate_alike {p q : Parsed} (h : p.Alike q) (limit : Nat) (env : Environment) :
    EndAlike (p.evaluate limit env) (q.evaluate limit env) := by
  have hempty : p.diagnostics.isEmpty = q.diagnostics.isEmpty := by
    have hlength := h.diagnostics.length_eq
    rw [Bool.eq_iff_iff, List.isEmpty_iff_length_eq_zero, List.isEmpty_iff_length_eq_zero, hlength]
  unfold evaluate
  rw [hempty]
  split
  · exact (Program.run_alike h.program_eq limit (.start env)).map Machine.environment
  · exact .some ⟨⟨rfl, h.diagnostics⟩, rfl⟩

/-- Places never influence what a program means. Token lists that differ in their places alone,
with diagnostics that do, are read as programs that differ in their places alone, with diagnostics
that do. Such programs, run from the same state whether there are diagnostics or not, are given up
within the same bounds, and otherwise give the same values, leave the same state and fail with
diagnostics that differ in their places alone. So do texts whose tokens and stray characters differ
in their places alone. -/
theorem layout_irrelevant :
    (∀ (ts us : List Token) (ds es : List Diagnostic),
      List.Forall₂ Token.Alike ts us → List.Forall₂ Diagnostic.Alike ds es →
        (parse ts ds).Alike (parse us es)) ∧
    (∀ p q : Parsed, p.Alike q → ∀ limit : Nat,
      (∀ m : Machine, EndAlike (p.program.run limit m) (q.program.run limit m)) ∧
      ∀ env : Environment, EndAlike (p.evaluate limit env) (q.evaluate limit env)) ∧
    ∀ source text source' text' : String,
      List.Forall₂ Token.Alike (lex source text).tokens (lex source' text').tokens →
        List.Forall₂ Diagnostic.Alike (lex source text).diagnostics
          (lex source' text').diagnostics →
        ∀ (limit : Nat) (env : Environment),
          EndAlike (evaluateText limit source text env)
            (evaluateText limit source' text' env) := by
  refine ⟨fun ts us ds es hts hds => parse_alike hts hds, fun p q h limit => ⟨?_, ?_⟩, ?_⟩
  · exact Program.run_alike h.program_eq limit
  · exact Parsed.evaluate_alike h limit
  · intro source text source' text' htokens hdiagnostics limit env
    have hparsed : (parseText source text).Alike (parseText source' text') :=
      parse_alike htokens hdiagnostics
    exact Parsed.evaluate_alike hparsed limit env

theorem layout_irrelevant_elsewhere :
    let elsewhere : Span := ⟨⟨"t", 7, 1, 2⟩, ⟨"t", 8, 1, 3⟩⟩
    let word (s : Span) : Token := ⟨.keyword, "declare", some (.keyword .declare), s⟩
    let access (s : Span) : Parsed := ⟨[.access ⟨.identifier, "x", none, s⟩], []⟩
    (List.Forall₂ Token.Alike [word .nowhere] [word elsewhere] ∧
      (parse [word .nowhere] []).Alike (parse [word elsewhere] [])) ∧
    ((access .nowhere).Alike (access elsewhere) ∧
      EndAlike ((access .nowhere).evaluate 0 .initial) ((access elsewhere).evaluate 0 .initial)) ∧
    List.Forall₂ Token.Alike (lex "s" "x;").tokens (lex "t" "\nx;").tokens ∧
      List.Forall₂ Diagnostic.Alike (lex "s" "x;").diagnostics (lex "t" "\nx;").diagnostics ∧
      EndAlike (evaluateText 0 "s" "x;" .initial) (evaluateText 0 "t" "\nx;" .initial) := by
  intro elsewhere word access
  obtain ⟨hread, hrun, htexts⟩ := layout_irrelevant
  have hword : List.Forall₂ Token.Alike [word .nowhere] [word elsewhere] :=
    .cons ⟨rfl, rfl, rfl⟩ .nil
  have hline : pieces "\nx;".toList = .blank '\n' :: pieces "x;".toList :=
    pieces_blank (by decide) ['x', ';']
  have htokens : List.Forall₂ Token.Alike (lex "s" "x;").tokens (lex "t" "\nx;").tokens := by
    rw [lex, lex, hline, pieces_name]
    exact .cons ⟨rfl, rfl, rfl⟩ (.cons ⟨rfl, rfl, rfl⟩ (.cons ⟨rfl, rfl, rfl⟩ .nil))
  have hnone : List.Forall₂ Diagnostic.Alike (lex "s" "x;").diagnostics
      (lex "t" "\nx;").diagnostics := by
    rw [lex, lex, hline, pieces_name]
    exact .nil
  have haccess : (access .nowhere).Alike (access elsewhere) := ⟨rfl, .nil⟩
  exact ⟨⟨hword, hread _ _ [] [] hword .nil⟩, ⟨haccess, (hrun _ _ haccess 0).2 .initial⟩,
    htokens, hnone, htexts "s" "x;" "t" "\nx;" htokens hnone 0 .initial⟩

end Scriptlet
