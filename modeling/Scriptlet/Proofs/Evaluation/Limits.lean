import Scriptlet.Evaluation.Program

/-! The bound on a run decides only whether the run is given up. A run that ends within one
bound ends in the same way within every larger one. -/

namespace Scriptlet

def Outcome.operand? : Outcome → Option Value
  | value v => some v
  | nothing => some .null
  | _ => none

theorem Run.andThen_some (outcome : Outcome) (m : Machine) (next : Value → Machine → Run) :
    andThen (some (outcome, m)) next =
      match outcome.operand? with
      | some v => next v m
      | none => some (outcome, m) := by
  cases outcome <;> rfl

/-- The longer run ends as the shorter one does, if that ends. -/
def Outlasts {α : Type} (longer shorter : Option α) : Prop :=
  ∀ r, shorter = some r → longer = some r

namespace Outlasts

theorem refl {α : Type} (a : Option α) : Outlasts a a := fun _ h => h

theorem map {α β : Type} {a b : Option α} (h : Outlasts b a) (f : α → β) :
    Outlasts (b.map f) (a.map f) := by
  intro r hr
  obtain ⟨x, hx, rfl⟩ := Option.map_eq_some_iff.1 hr
  rw [h x hx, Option.map_some]

theorem andThen {run later : Run} {next next' : Value → Machine → Run} (h : Outlasts later run)
    (hnext : ∀ v m, Outlasts (next' v m) (next v m)) :
    Outlasts (later.andThen next') (run.andThen next) := by
  intro r hr
  rcases run with _ | ⟨outcome, m⟩
  · cases hr
  rw [h _ rfl, Run.andThen_some]
  rw [Run.andThen_some] at hr
  split at hr
  · exact hnext _ m r hr
  · exact hr

theorem within {body body' : Machine → Run} (h : ∀ m, Outlasts (body' m) (body m)) (m : Machine)
    (scope : Scope) : Outlasts (m.within scope body') (m.within scope body) :=
  (h _).map _

theorem repeatWhile {condition condition' body body' : Machine → Run}
    (hcondition : ∀ m, Outlasts (condition' m) (condition m))
    (hbody : ∀ m, Outlasts (body' m) (body m)) {k l : Nat} (hle : k ≤ l) (m : Machine) :
    Outlasts (repeatWhile condition' body' l m) (repeatWhile condition body k m) := by
  induction k generalizing l m with
  | zero =>
    intro r hr
    cases hr
  | succ k ih =>
    obtain _ | l := l
    · exact absurd hle (Nat.not_succ_le_zero k)
    refine (hcondition m).andThen fun v m => ?_
    by_cases hv : v.isTrue
    · simp only [if_pos hv]
      intro r hr
      rcases hrun : body m with _ | ⟨outcome, m₁⟩
      · simp [hrun] at hr
      rw [hbody m _ hrun]
      rw [hrun] at hr
      have hagain := ih (Nat.le_of_succ_le_succ hle) m₁
      cases outcome with
      | breaks | fails => exact hr
      | value | nothing | continues => exact hagain r hr
    · simp only [if_neg hv]
      exact refl _

end Outlasts

mutual

theorem Node.evaluate_outlasts {k l : Nat} (hle : k ≤ l) :
    ∀ (n : Node) (m : Machine), Outlasts (n.evaluate l m) (n.evaluate k m)
  | .literal _, _ | .access _, _ | .breakLoop _, _ | .continueLoop _, _ | .missing _, _ => .refl _
  | .unary _ operand _, m => (operand.evaluate_outlasts hle m).andThen fun _ _ => .refl _
  | .binary left _ right _, m =>
    (left.evaluate_outlasts hle m).andThen fun _ m =>
      (right.evaluate_outlasts hle m).andThen fun _ _ => .refl _
  | .group inner _, m => inner.evaluate_outlasts hle m
  | .declare _ value _, m => (value.evaluate_outlasts hle m).andThen fun _ _ => .refl _
  | .branch condition body _, m => by
    refine (condition.evaluate_outlasts hle m).andThen fun v m => ?_
    by_cases hv : v.isTrue
    · simp only [if_pos hv]
      exact .within (evaluateAll_outlasts hle body) m .branch
    · simp only [if_neg hv]
      exact .refl _
  | .loop condition body _, m =>
    .repeatWhile (condition.evaluate_outlasts hle)
      (.within (evaluateAll_outlasts hle body) · .loop) hle m

theorem evaluateAll_outlasts {k l : Nat} (hle : k ≤ l) :
    ∀ (ns : List Node) (m : Machine), Outlasts (evaluateAll l ns m) (evaluateAll k ns m)
  | [], _ => .refl _
  | n :: ns, m => (n.evaluate_outlasts hle m).andThen fun _ m => evaluateAll_outlasts hle ns m

end

theorem Program.run_outlasts {k l : Nat} (hle : k ≤ l) (p : Program) (m : Machine) :
    Outlasts (p.run l m) (p.run k m) := by
  induction p generalizing m with
  | nil => exact .refl _
  | cons n ns ih =>
    intro r hr
    rw [run] at hr ⊢
    rcases hrun : n.evaluate k m with _ | ⟨outcome, m₁⟩
    · simp [hrun] at hr
    rw [n.evaluate_outlasts hle m _ hrun]
    rw [hrun] at hr
    cases outcome with
    | value => exact (ih m₁).map _ r hr
    | nothing => exact ih m₁ r hr
    | breaks | continues | fails => exact hr

theorem evaluateText_outlasts {k l : Nat} (hle : k ≤ l) (source text : String) (env : Environment) :
    Outlasts (evaluateText l source text env) (evaluateText k source text env) := by
  rw [evaluateText, evaluateText, Parsed.evaluate, Parsed.evaluate]
  split
  · exact (Program.run_outlasts hle _ _).map _
  · exact .refl _

theorem eq_of_outlasts {α : Type} {f : Nat → Option α}
    (hf : ∀ {k l : Nat}, k ≤ l → Outlasts (f l) (f k)) {k l : Nat} {r s : α} (hr : f k = some r)
    (hs : f l = some s) : r = s := by
  rcases Nat.le_total k l with hle | hle
  · exact Option.some.inj ((hf hle r hr).symm.trans hs)
  · exact Option.some.inj (hr.symm.trans (hf hle s hs))

/-- Every bound from some bound on is enough to end so. -/
def Settles {α : Type} (f : Nat → Option α) (r : α) : Prop := ∃ k, ∀ l, k ≤ l → f l = some r

namespace Settles

theorem of_eq {α : Type} {f : Nat → Option α} {r : α} (h : ∀ l, f l = some r) : Settles f r :=
  ⟨0, fun l _ => h l⟩

theorem shift {α : Type} {f : Nat → Option α} {r : α} (h : Settles f r) :
    Settles (fun l => f (l + 1)) r := by
  obtain ⟨k, hk⟩ := h
  exact ⟨k, fun l hl => hk (l + 1) (Nat.le_succ_of_le hl)⟩

theorem of_shift {α : Type} {f : Nat → Option α} {r : α} (h : Settles (fun l => f (l + 1)) r) :
    Settles f r := by
  obtain ⟨k, hk⟩ := h
  refine ⟨k + 1, fun l hl => ?_⟩
  obtain _ | l := l
  · exact absurd hl (Nat.not_succ_le_zero k)
  · exact hk l (Nat.le_of_succ_le_succ hl)

theorem and {α β : Type} {f : Nat → Option α} {g : Nat → Option β} {r : α} {s : β}
    (hf : Settles f r) (hg : Settles g s) : ∃ k, ∀ l, k ≤ l → f l = some r ∧ g l = some s := by
  obtain ⟨k₁, hk₁⟩ := hf
  obtain ⟨k₂, hk₂⟩ := hg
  refine ⟨max k₁ k₂, fun l hl => ?_⟩
  have ⟨hl₁, hl₂⟩ := Nat.max_le.1 hl
  exact ⟨hk₁ l hl₁, hk₂ l hl₂⟩

theorem unique {α : Type} {f : Nat → Option α} {r s : α} (hr : Settles f r) (hs : Settles f s) :
    r = s := by
  obtain ⟨k, hk⟩ := hr.and hs
  obtain ⟨hfr, hfs⟩ := hk k (Nat.le_refl k)
  exact Option.some.inj (hfr.symm.trans hfs)

theorem andThen {f : Nat → Run} {next : Nat → Value → Machine → Run} {o : Outcome} {m : Machine}
    {v : Value} {r : Outcome × Machine} (h : Settles f (o, m)) (hv : o.operand? = some v)
    (hnext : Settles (fun l => next l v m) r) : Settles (fun l => (f l).andThen (next l)) r := by
  obtain ⟨k, hk⟩ := h.and hnext
  refine ⟨k, fun l hl => ?_⟩
  obtain ⟨hf, hrest⟩ := hk l hl
  simp only [hf, Run.andThen_some, hv]
  exact hrest

theorem stop {f : Nat → Run} {next : Nat → Value → Machine → Run} {o : Outcome} {m : Machine}
    (h : Settles f (o, m)) (ho : o.operand? = none) :
    Settles (fun l => (f l).andThen (next l)) (o, m) := by
  obtain ⟨k, hk⟩ := h
  refine ⟨k, fun l hl => ?_⟩
  simp only [hk l hl, Run.andThen_some, ho]

theorem within {body : Nat → Machine → Run} {e e' : Environment} {σ : List Scope} {scope : Scope}
    {o : Outcome} (h : Settles (fun l => body l ⟨e, scope :: σ⟩) (o, ⟨e', scope :: σ⟩)) :
    Settles (fun l => (Machine.mk e σ).within scope (body l)) (o, ⟨e', σ⟩) := by
  obtain ⟨k, hk⟩ := h
  refine ⟨k, fun l hl => ?_⟩
  simp only [Machine.within, Machine.enter, hk l hl]
  rfl

end Settles
end Scriptlet
