import Scriptlet.Proofs.Evaluation.Genuine

/-! Where loop signals come from. A tree can only signal by a break or a continue that no body of a
loop in it shuts in, and a root that signals ends the program with a report of its own. -/

namespace Scriptlet

def Outcome.word? : Outcome → Option Keyword
  | breaks => some .breakWord
  | continues => some .continueWord
  | _ => none

def Node.word? : Node → Option Keyword
  | breakLoop _ => some .breakWord
  | continueLoop _ => some .continueWord
  | _ => none

/-- One node stands loose in another: the way down to it goes through no body of a loop. -/
inductive Loose (x : Node) : Node → Prop
  | self : Loose x x
  | unary {op n s} (h : Loose x n) : Loose x (.unary op n s)
  | left {left op right s} (h : Loose x left) : Loose x (.binary left op right s)
  | right {left op right s} (h : Loose x right) : Loose x (.binary left op right s)
  | group {n s} (h : Loose x n) : Loose x (.group n s)
  | declare {name n s} (h : Loose x n) : Loose x (.declare name n s)
  | branchCondition {condition body s} (h : Loose x condition) :
      Loose x (.branch condition body s)
  | branchBody {condition body n s} (hn : n ∈ body) (h : Loose x n) :
      Loose x (.branch condition body s)
  | loopCondition {condition body s} (h : Loose x condition) : Loose x (.loop condition body s)

def Node.Leaks (word : Keyword) (n : Node) : Prop := ∃ x, Loose x n ∧ x.word? = some word

def Task.Leaks (word : Keyword) : Task → Prop
  | node n => n.Leaks word
  | body ns => ∃ n ∈ ns, n.Leaks word

theorem Node.Leaks.imp {word : Keyword} {n m : Node} (h : n.Leaks word)
    (hloose : ∀ x, Loose x n → Loose x m) : m.Leaks word := by
  obtain ⟨x, hx, hword⟩ := h
  exact ⟨x, hloose x hx, hword⟩

theorem Runs.leaks {σ : List Scope} {task : Task} {e e' : Environment} {o : Outcome}
    (h : Runs σ task e o e') : ∀ word, o.word? = some word → task.Leaks word := by
  induction h with
  | breakLoop | continueLoop =>
    rintro word ⟨⟩
    exact ⟨_, .self, rfl⟩
  | unaryStops _ _ ih => exact fun word hword => (ih word hword).imp fun _ => .unary
  | leftStops _ _ ih => exact fun word hword => (ih word hword).imp fun _ => .left
  | rightStops _ _ _ _ _ ih => exact fun word hword => (ih word hword).imp fun _ => .right
  | group _ ih => exact fun word hword => (ih word hword).imp fun _ => .group
  | declareStops _ _ ih => exact fun word hword => (ih word hword).imp fun _ => .declare
  | branch _ _ _ _ _ ih =>
    intro word hword
    obtain ⟨n, hn, hleaks⟩ := ih word hword
    exact hleaks.imp fun _ => .branchBody hn
  | branchStops _ _ ih => exact fun word hword => (ih word hword).imp fun _ => .branchCondition
  -- a later round is a run of the same loop, which has let no signal of its body out
  | loopAgain _ _ _ _ _ _ _ _ ih => exact ih
  | loopStops _ _ ih => exact fun word hword => (ih word hword).imp fun _ => .loopCondition
  | next _ _ _ _ ih =>
    intro word hword
    obtain ⟨n, hn, hleaks⟩ := ih word hword
    exact ⟨n, List.mem_cons_of_mem _ hn, hleaks⟩
  | stops _ _ ih => exact fun word hword => ⟨_, List.mem_cons_self, ih word hword⟩
  | _ => exact fun _ hword => nomatch hword

theorem Program.exists_of_mem_run {limit : Nat} {p : Program} {m m' : Machine} {e : Evaluation}
    (h : p.run limit m = some (e, m')) {d : Diagnostic} (hd : d ∈ e.diagnostics) :
    ∃ root ∈ p, ∃ m₁ o m₂, root.evaluate limit m₁ = some (o, m₂) ∧
      (o = .fails d ∨ ∃ word, o.word? = some word ∧ d = m₂.straySignal word root.span) := by
  induction p generalizing m e with
  | nil =>
    cases h
    exact absurd hd List.not_mem_nil
  | cons root roots ih =>
    obtain ⟨o, env₁, hrun, -, hends⟩ := exists_of_run_cons h
    rcases hends with ⟨v, later, -, hrest, hreports⟩ | ⟨rfl, d', hreport, hends⟩
    · rw [hreports] at hd
      obtain ⟨n, hn, hreported⟩ := ih hrest hd
      exact ⟨n, List.mem_cons_of_mem _ hn, hreported⟩
    · rw [hreport] at hd
      obtain rfl := List.mem_singleton.1 hd
      refine ⟨root, List.mem_cons_self, m, o, _, hrun, ?_⟩
      rcases hends with rfl | ⟨rfl, rfl⟩ | ⟨rfl, rfl⟩
      · exact .inl rfl
      · exact .inr ⟨_, rfl, rfl⟩
      · exact .inr ⟨_, rfl, rfl⟩

theorem OperationError.message_not_quoted (error : OperationError) :
    ¬ "'".toList <+: error.message.toList := by
  unfold message
  cases error <;> simp [toString]

theorem DeclareError.message_not_quoted (error : DeclareError) :
    ¬ "'".toList <+: error.message.toList := by
  unfold message
  simp [toString]

theorem Fault.not_opensWith_quote {σ : List Scope} {n : Node} {d : Diagnostic}
    (h : Fault σ n d) : ¬ d.OpensWith "'" := by
  cases h with
  | literal | access => simp [Diagnostic.OpensWith, runtimeError, toString]
  | unary error | binary error => exact error.message_not_quoted
  | declare error => exact error.message_not_quoted

theorem Node.message_of_fails {limit : Nat} {n : Node} {m m' : Machine} {d : Diagnostic}
    (h : n.evaluate limit m = some (.fails d, m')) (word : Keyword) :
    d.message ≠ s!"'{word.text}' used outside of a loop" := by
  intro hmessage
  obtain ⟨_, -, hruns⟩ := n.realizes limit m.scopes m.environment _ m' h
  obtain ⟨_, _, -, hfault⟩ := hruns.blames d rfl
  refine hfault.not_opensWith_quote ?_
  rw [Diagnostic.OpensWith, hmessage]
  simp [toString]

theorem Keyword.eq_of_signal_message {a b : Keyword}
    (h : s!"'{a.text}' used outside of a loop" = s!"'{b.text}' used outside of a loop") :
    a = b := by
  cases a <;> cases b <;> first | rfl | exact absurd h (by decide)

theorem Node.scopes_evaluate {limit : Nat} {n : Node} {m m' : Machine} {o : Outcome}
    (h : n.evaluate limit m = some (o, m')) : m'.scopes = m.scopes := by
  obtain ⟨_, rfl, -⟩ := n.realizes limit m.scopes m.environment o m' h
  rfl

theorem Program.run_of_word? {limit : Nat} {root : Node} {m m' : Machine} {o : Outcome}
    {word : Keyword} (h : root.evaluate limit m = some (o, m')) (hword : o.word? = some word)
    (after : Program) :
    Program.run limit (root :: after) m = some (⟨[], [m'.straySignal word root.span]⟩, m') := by
  rw [run, h]
  cases o with
  | breaks | continues =>
    cases hword
    rfl
  | value | nothing | fails => cases hword

/-- A tree that ends with a signal has a loose break or continue for it. So a program of which no
root has one never tells of a signal outside of a loop; and if a root does signal, behind roots that
ran to their ends, the program ends there with that report, and with the values of the roots before
it. -/
theorem signals_leak_and_are_reported :
    (∀ (n : Node) (limit : Nat) (m m' : Machine) (o : Outcome) (word : Keyword),
      n.evaluate limit m = some (o, m') → o.word? = some word → n.Leaks word) ∧
    (∀ (p : Program) (limit : Nat) (m m' : Machine) (e : Evaluation) (word : Keyword),
      (∀ root ∈ p, ¬ root.Leaks word) → p.run limit m = some (e, m') →
        ∀ d ∈ e.diagnostics, d.message ≠ s!"'{word.text}' used outside of a loop") ∧
    ∀ (before : Program) (root : Node) (after : Program) (limit : Nat) (m m₁ m₂ : Machine)
      (vs : List Value) (o : Outcome) (word : Keyword),
      before.run limit m = some (⟨vs, []⟩, m₁) → root.evaluate limit m₁ = some (o, m₂) →
        o.word? = some word →
          Program.run limit (before ++ root :: after) m =
            some (⟨vs, [{
              kind := .runtimeError
              span := root.span
              message := s!"'{word.text}' used outside of a loop"
              context := m.context
              help := some "'break' and 'continue' are only meaningful inside a 'while' body." }]⟩,
              m₂) := by
  have hleaks (n : Node) (limit : Nat) (m m' : Machine) (o : Outcome) (word : Keyword)
      (h : n.evaluate limit m = some (o, m')) (hword : o.word? = some word) : n.Leaks word := by
    obtain ⟨_, -, hruns⟩ := n.realizes limit m.scopes m.environment o m' h
    exact hruns.leaks word hword
  refine ⟨hleaks, ?_, ?_⟩
  · intro p limit m m' e word hp hrun d hd hmessage
    obtain ⟨root, hroot, m₁, o, m₂, heval, rfl | ⟨other, hother, rfl⟩⟩ :=
      Program.exists_of_mem_run hrun hd
    · exact root.message_of_fails heval word hmessage
    · obtain rfl := Keyword.eq_of_signal_message hmessage
      exact hp root hroot (hleaks root limit m₁ m₂ o _ heval hother)
  · intro before root after limit m m₁ m₂ vs o word hbefore hroot hword
    have hscopes : m₂.scopes = m.scopes :=
      (root.scopes_evaluate hroot).trans (Program.scopes_run hbefore)
    have hcontext : m.context = m₂.context := by
      rw [Machine.context, Machine.context, hscopes]
    rw [Program.run_append, hbefore, Evaluation.andThen, Program.run_of_word? hroot hword after,
      Option.map_some, hcontext]
    simp only [List.append_nil]
    rfl

/-- `1 + if (1) { break; }` signals. `while (1) { break; } x;` has no loose break, and fails with a
report of the name. `1; continue; 2;` ends at its second root. -/
theorem signals_of_three_programs :
    let one : Node := .literal ⟨.number, "1", some (.int 1), .nowhere⟩
    let x : Node := .access ⟨.identifier, "x", none, .nowhere⟩
    let sum : Node := .binary one .add (.branch one [.breakLoop .nowhere] .nowhere) .nowhere
    let loop : Node := .loop one [.breakLoop .nowhere] .nowhere
    let m := Machine.start .initial
    (sum.evaluate 0 m = some (.breaks, m) ∧ sum.Leaks .breakWord) ∧
    ((∀ root ∈ [loop, x], ¬ root.Leaks .breakWord) ∧
      ∃ d, Program.run 1 [loop, x] m = some (⟨[], [d]⟩, m) ∧
        d.message ≠ s!"'{Keyword.breakWord.text}' used outside of a loop") ∧
    ∃ v d, Program.run 0 [one, .continueLoop .nowhere, one] m = some (⟨[v], [d]⟩, m) ∧
      d.message = s!"'{Keyword.continueWord.text}' used outside of a loop" := by
  intro one x sum loop m
  obtain ⟨hleaks, hsilent, hreported⟩ := signals_leak_and_are_reported
  have hsum : sum.evaluate 0 m = some (.breaks, m) := rfl
  have hshut : ∀ root ∈ [loop, x], ¬ root.Leaks .breakWord := by
    rintro root hroot ⟨n, hloose, hword⟩
    simp only [List.mem_cons, List.not_mem_nil, or_false] at hroot
    rcases hroot with rfl | rfl <;> dsimp only [loop, one, x] at hloose
    · cases hloose with
      | self => cases hword
      | loopCondition h =>
        cases h
        cases hword
    · cases hloose
      cases hword
  have hloop : Program.run 1 [loop, x] m = some (⟨[], [_]⟩, m) := rfl
  have hone : Program.run 0 [one] m = some (⟨[.number (.ofInt 1)], []⟩, m) := rfl
  have hsignal : (Node.continueLoop .nowhere).evaluate 0 m = some (.continues, m) := rfl
  exact ⟨⟨hsum, hleaks sum 0 m m .breaks .breakWord hsum rfl⟩,
    ⟨hshut, _, hloop, hsilent [loop, x] 1 m m _ .breakWord hshut hloop _ List.mem_cons_self⟩,
    _, _, hreported [one] _ [one] 0 m m m _ .continues .continueWord hone hsignal rfl, rfl⟩

end Scriptlet
