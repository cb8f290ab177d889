import Scriptlet.Proofs.Syntax.Consumption
import Scriptlet.Syntax.Outline

/-! What a defect leaves in the tree. A missing expression is a node, and a missing name is an empty
token inside one; neither is there without the report that goes with it. -/

namespace Scriptlet

namespace Diagnostic

def OpensWith (d : Diagnostic) (text : String) : Prop := text.toList <+: d.message.toList

instance (d : Diagnostic) (text : String) : Decidable (d.OpensWith text) :=
  inferInstanceAs (Decidable (_ <+: _))

theorem OpensWith.not {d : Diagnostic} {a b : String} (h : d.OpensWith a)
    (hab : ¬ a.toList <+: b.toList := by simp) (hba : ¬ b.toList <+: a.toList := by simp) :
    ¬ d.OpensWith b :=
  fun hb => (List.prefix_or_prefix_of_prefix h hb).elim hab hba

end Diagnostic

theorem MissingExpression.diagnostic_opensWith (found : Token) :
    (diagnostic found).OpensWith "Expected expression, found " := by
  simp [Diagnostic.OpensWith, diagnostic, toString]

namespace Expectation

theorem diagnostic_not_opensWith (e : Expectation) (found : Token) :
    ¬ (e.diagnostic found).OpensWith "Expected expression, found " := by
  cases e <;> simp [Diagnostic.OpensWith, diagnostic, wording, toString]

theorem declaredName_opensWith (found : Token) :
    (declaredName.diagnostic found).OpensWith "Expected variable name " := by
  simp [Diagnostic.OpensWith, diagnostic, wording, toString]

end Expectation

/-! The nodes of a tree are those of its outline, which lists them from left to right. -/

mutual

theorem Node.map_node_outline (d d' : Nat) :
    ∀ n : Node, (n.outline d).map OutlineRow.node = (n.outline d').map OutlineRow.node
  | .literal _ | .access _ | .breakLoop _ | .continueLoop _ | .missing _ => rfl
  | .unary _ inner _ | .group inner _ | .declare _ inner _ =>
    congrArg (List.cons _) (inner.map_node_outline (d + 1) (d' + 1))
  | .binary left _ right _ => by
    simp only [Node.outline, List.map_cons, List.map_append, List.cons.injEq, true_and]
    rw [left.map_node_outline (d + 1) (d' + 1), right.map_node_outline (d + 1) (d' + 1)]
  | .branch condition body _ | .loop condition body _ => by
    simp only [Node.outline, List.map_cons, List.map_append, List.cons.injEq, true_and]
    rw [condition.map_node_outline (d + 1) (d' + 1), map_node_outlineAll (d + 1) (d' + 1) body]

theorem map_node_outlineAll (d d' : Nat) :
    ∀ ns : List Node, (outlineAll d ns).map OutlineRow.node = (outlineAll d' ns).map OutlineRow.node
  | [] => rfl
  | n :: ns => by
    simp only [outlineAll, List.map_append]
    rw [n.map_node_outline d d', map_node_outlineAll d d' ns]

end

def Node.nodes (n : Node) : List Node := (n.outline 0).map OutlineRow.node

def Program.nodes (p : Program) : List Node := (outline p).map OutlineRow.node

@[simp] theorem Program.nodes_nil : Program.nodes [] = [] := rfl

@[simp] theorem Program.nodes_cons (n : Node) (ns : List Node) :
    Program.nodes (n :: ns) = n.nodes ++ Program.nodes ns := List.map_append

theorem Program.mem_nodes {p : Program} {n : Node} : n ∈ p.nodes ↔ ∃ root ∈ p, n ∈ root.nodes := by
  induction p with
  | nil => simp
  | cons root roots ih => simp [ih]

namespace Node

@[simp] theorem nodes_literal (token : Token) : (literal token).nodes = [literal token] := rfl

@[simp] theorem nodes_access (name : Token) : (access name).nodes = [access name] := rfl

@[simp] theorem nodes_unary (op : UnaryOp) (n : Node) (s : Span) :
    (unary op n s).nodes = unary op n s :: n.nodes :=
  congrArg (List.cons _) (n.map_node_outline 1 0)

@[simp] theorem nodes_binary (left : Node) (op : BinaryOp) (right : Node) (s : Span) :
    (binary left op right s).nodes = binary left op right s :: (left.nodes ++ right.nodes) := by
  rw [nodes, outline, List.map_cons, List.map_append, left.map_node_outline (0 + 1) 0,
    right.map_node_outline (0 + 1) 0]
  rfl

@[simp] theorem nodes_group (n : Node) (s : Span) : (group n s).nodes = group n s :: n.nodes :=
  congrArg (List.cons _) (n.map_node_outline 1 0)

@[simp] theorem nodes_declare (name : Token) (n : Node) (s : Span) :
    (declare name n s).nodes = declare name n s :: n.nodes :=
  congrArg (List.cons _) (n.map_node_outline 1 0)

@[simp] theorem nodes_branch (condition : Node) (body : List Node) (s : Span) :
    (branch condition body s).nodes =
      branch condition body s :: (condition.nodes ++ Program.nodes body) := by
  rw [nodes, outline, List.map_cons, List.map_append, condition.map_node_outline (0 + 1) 0,
    map_node_outlineAll (0 + 1) 0]
  rfl

@[simp] theorem nodes_loop (condition : Node) (body : List Node) (s : Span) :
    (loop condition body s).nodes =
      loop condition body s :: (condition.nodes ++ Program.nodes body) := by
  rw [nodes, outline, List.map_cons, List.map_append, condition.map_node_outline (0 + 1) 0,
    map_node_outlineAll (0 + 1) 0]
  rfl

@[simp] theorem nodes_breakLoop (s : Span) : (breakLoop s).nodes = [breakLoop s] := rfl

@[simp] theorem nodes_continueLoop (s : Span) : (continueLoop s).nodes = [continueLoop s] := rfl

@[simp] theorem nodes_missing (s : Span) : (missing s).nodes = [missing s] := rfl

theorem self_mem_nodes (n : Node) : n ∈ n.nodes := by
  cases n <;> simp

@[simp] def missing? : Node → Option Span
  | missing s => some s
  | _ => none

end Node

def missingSpans (ns : List Node) : List Span := ns.filterMap Node.missing?

@[simp] theorem missingSpans_nil : missingSpans [] = [] := rfl

@[simp] theorem missingSpans_cons (n : Node) (ns : List Node) :
    missingSpans (n :: ns) = n.missing?.toList ++ missingSpans ns := by
  cases n <;> rfl

@[simp] theorem missingSpans_append (ms ns : List Node) :
    missingSpans (ms ++ ns) = missingSpans ms ++ missingSpans ns := List.filterMap_append

def reportedSpans (issues : List Diagnostic) : List Span :=
  (issues.filter (·.OpensWith "Expected expression, found ")).map Diagnostic.span

@[simp] theorem reportedSpans_nil : reportedSpans [] = [] := rfl

@[simp] theorem reportedSpans_append (is js : List Diagnostic) :
    reportedSpans (is ++ js) = reportedSpans is ++ reportedSpans js := by
  simp only [reportedSpans, List.filter_append, List.map_append]

theorem MissingExpression.reportedSpans_eq (found : Token) :
    reportedSpans [diagnostic found] = [found.span] := by
  simp only [reportedSpans, diagnostic_opensWith found, decide_true, List.filter_cons_of_pos]
  rfl

@[simp] def Node.token? : Node → Option Token
  | literal token => some token
  | access name | declare name _ _ => some name
  | _ => none

/-- A name or a number is one of the tokens. A declared name that is not has been reported. -/
def Node.Backed (ts : List Token) (issues : List Diagnostic) : Node → Prop
  | literal token => token ∈ ts ∧ token.kind = .number
  | access name => name ∈ ts ∧ name.kind = .identifier
  | declare name _ _ =>
    name ∈ ts ∧ name.kind = .identifier ∨
      ∃ d ∈ issues, d.OpensWith "Expected variable name " ∧ d.span = name.span
  | _ => True

namespace Grammar

namespace Finding

@[simp] def nodes : Finding → List Node
  | expression n | tier _ n | chain _ _ n | statement n => n.nodes
  | statements _ ns => Program.nodes ns

@[simp] def given : Finding → List Node
  | chain _ left _ => left.nodes
  | _ => []

end Finding

variable {stop : Token}

theorem Takes.reportedSpans_eq {e : Expectation} {ts rest : List Token} {token : Token}
    {issues : List Diagnostic} (h : Takes stop e ts token rest issues) :
    reportedSpans issues = [] := by
  cases h with
  | met => rfl
  | unmet => simp [reportedSpans, e.diagnostic_not_opensWith]

/-- Every missing expression is reported, and none is reported that is not missing. What a chain
starts from has been reported before. -/
theorem Reads.missingSpans_eq {f : Finding} {ts rest : List Token} {issues : List Diagnostic}
    (h : Reads stop f ts rest issues) :
    missingSpans f.nodes = missingSpans f.given ++ reportedSpans issues := by
  induction h with
  | declare _ hname hmark _ ih => simpa [hname.reportedSpans_eq, hmark.reportedSpans_eq] using ih
  | logical _ _ ih => exact ih
  | negation _ _ ih | signed _ _ ih => simpa using ih
  | @operands t left n ts ts₁ rest i₁ i₂ _ _ _ _ ihleft ihchain =>
    have hleft : missingSpans left.nodes = reportedSpans i₁ := ihleft
    have hchain : missingSpans n.nodes = missingSpans left.nodes ++ reportedSpans i₂ := ihchain
    simp [hchain, hleft]
  | last => simp
  | @join t token op left right n ts ts₁ rest i₁ i₂ _ _ _ ihright ihchain =>
    have hright : missingSpans right.nodes = reportedSpans i₁ := ihright
    simpa [hright] using ihchain
  | group _ _ hclose ih => simpa [hclose.reportedSpans_eq] using ih
  | access | literal => rfl
  | @block _ _ _ _ _ _ condition body _ _ _ _ _ _ _ _ i₂ _ _ i₅ _ hword hopen _ hclose hbrace _
      hlast ihcondition ihbody =>
    have hcondition : missingSpans condition.nodes = reportedSpans i₂ := ihcondition
    have hbody : missingSpans (Program.nodes body) = reportedSpans i₅ := ihbody
    obtain ⟨-, rfl⟩ | ⟨-, rfl⟩ := Token.block?_eq_some hword <;>
      simp [hopen.reportedSpans_eq, hclose.reportedSpans_eq, hbrace.reportedSpans_eq,
        hlast.reportedSpans_eq, hcondition, hbody]
  | missing => exact (MissingExpression.reportedSpans_eq _).symm
  | breakLoop _ hmark | continueLoop _ hmark => simp [hmark.reportedSpans_eq]
  | closed _ _ _ _ hmark ih => simpa [hmark.reportedSpans_eq] using ih
  | closedBlock _ _ _ _ _ ih | bareBlock _ _ _ _ _ ih => exact ih
  | finished | closing => rfl
  | @next _ n ns _ _ _ _ i₁ i₂ _ _ _ _ ih ihnext | @stalled _ n ns _ _ _ i₁ i₂ _ _ _ ih ihnext =>
    have hn : missingSpans n.nodes = reportedSpans i₁ := ih
    have hns : missingSpans (Program.nodes ns) = reportedSpans i₂ := ihnext
    simp [hn, hns]

theorem Takes.subset {e : Expectation} {ts rest us : List Token} {token : Token}
    {issues : List Diagnostic} (h : Takes stop e ts token rest issues) (hts : ts ⊆ us) :
    rest ⊆ us :=
  List.Subset.trans h.isSuffix.subset hts

theorem Reads.subset {f : Finding} {ts rest us : List Token} {issues : List Diagnostic}
    (h : Reads stop f ts rest issues) (hts : ts ⊆ us) : rest ⊆ us :=
  List.Subset.trans h.isSuffix.subset hts

/-- A property of nodes that is known of each node by itself: from the token that it holds, or from
how the name that it declares was taken. -/
structure Local (stop : Token) (us : List Token) (is : List Diagnostic) (P : Node → Prop) :
    Prop where
  tokenless (n : Node) (h : n.token? = none) : P n
  literal (t : Token) (h : t ∈ us) (hkind : t.kind = .number) : P (.literal t)
  access (t : Token) (h : t ∈ us) (hkind : t.kind = .identifier) : P (.access t)
  declare {ts rest : List Token} {name : Token} {issues : List Diagnostic}
    (h : Takes stop .declaredName ts name rest issues) (hts : ts ⊆ us) (his : issues ⊆ is)
    (value : Node) (s : Span) : P (.declare name value s)

theorem Local.of_reads {P : Node → Prop} {f : Finding} {ts rest us : List Token}
    {issues is : List Diagnostic} (hP : Local stop us is P) (h : Reads stop f ts rest issues)
    (hts : ts ⊆ us) (his : issues ⊆ is) (hgiven : ∀ n ∈ f.given, P n) : ∀ n ∈ f.nodes, P n := by
  -- the tokens and the reports of the whole stay fixed, and those of the part are among them
  induction h with
  | declare _ hname hmark hvalue ih =>
    simp only [List.append_subset, List.cons_subset] at his hts
    have hnamed := hP.declare hname hts.2 his.1.1
    have hvalue := ih (hmark.subset (hname.subset hts.2)) his.2 nofun
    simp only [Finding.nodes, Node.nodes_declare, List.forall_mem_cons]
    exact ⟨hnamed _ _, hvalue⟩
  | logical _ _ ih => exact ih hts his nofun
  | negation _ _ ih | signed _ _ ih =>
    simp only [Finding.nodes, Node.nodes_unary, List.forall_mem_cons]
    exact ⟨hP.tokenless _ rfl, ih (List.subset_of_cons_subset hts) his nofun⟩
  | operands _ _ hleft _ ihleft ihchain =>
    simp only [List.append_subset] at his
    exact ihchain (hleft.subset hts) his.2 (ihleft hts his.1 nofun)
  | last => exact hgiven
  | join _ hright _ ihright ihchain =>
    simp only [List.append_subset, List.cons_subset] at his hts
    refine ihchain (hright.subset hts.2) his.2 ?_
    simp only [Finding.given, Node.nodes_binary, List.forall_mem_cons, List.forall_mem_append]
    exact ⟨hP.tokenless _ rfl, hgiven, ihright hts.2 his.1 nofun⟩
  | group _ _ _ ih =>
    simp only [List.append_subset] at his
    simp only [Finding.nodes, Node.nodes_group, List.forall_mem_cons]
    exact ⟨hP.tokenless _ rfl, ih (List.subset_of_cons_subset hts) his.1 nofun⟩
  | access h => exact List.forall_mem_singleton.2 (hP.access _ (hts List.mem_cons_self) h)
  | literal h => exact List.forall_mem_singleton.2 (hP.literal _ (hts List.mem_cons_self) h)
  | block hword hopen hcondition hclose hbrace hbody hlast ihcondition ihbody =>
    simp only [List.append_subset, List.cons_subset] at his hts
    have hopened := hopen.subset hts.2
    have hbraced := hbrace.subset (hclose.subset (hcondition.subset hopened))
    have hin := ihcondition hopened his.1.1.1.1.2 nofun
    have hall := ihbody hbraced his.1.2 nofun
    obtain ⟨-, rfl⟩ | ⟨-, rfl⟩ := Token.block?_eq_some hword
    · simp only [Finding.nodes, Node.nodes_branch, List.forall_mem_cons, List.forall_mem_append]
      exact ⟨hP.tokenless _ rfl, hin, hall⟩
    · simp only [Finding.nodes, Node.nodes_loop, List.forall_mem_cons, List.forall_mem_append]
      exact ⟨hP.tokenless _ rfl, hin, hall⟩
  | missing | breakLoop | continueLoop => exact List.forall_mem_singleton.2 (hP.tokenless _ rfl)
  | closed _ _ _ _ _ ih =>
    simp only [List.append_subset] at his
    exact ih hts his.1 nofun
  | closedBlock _ _ _ _ _ ih | bareBlock _ _ _ _ _ ih => exact ih hts his nofun
  | finished | closing => exact nofun
  | next _ h _ _ ih ihnext =>
    simp only [List.append_subset] at his
    simp only [Finding.nodes, Program.nodes_cons, List.forall_mem_append]
    exact ⟨ih hts his.1 nofun, ihnext (h.subset hts) his.2 nofun⟩
  | stalled _ _ _ ih ihnext =>
    simp only [List.append_subset] at his
    simp only [Finding.nodes, Program.nodes_cons, List.forall_mem_append]
    exact ⟨ih hts his.1 nofun, ihnext (List.subset_of_cons_subset hts) his.2 nofun⟩

theorem Takes.backed {ts rest us : List Token} {name : Token} {issues is : List Diagnostic}
    (h : Takes stop .declaredName ts name rest issues) (hts : ts ⊆ us) (his : issues ⊆ is)
    (value : Node) (s : Span) : (Node.declare name value s).Backed us is := by
  cases h with
  | met h => exact .inl ⟨hts List.mem_cons_self, h⟩
  | unmet h =>
    have hreport := his List.mem_cons_self
    exact .inr ⟨_, hreport, Expectation.declaredName_opensWith _, rfl⟩

theorem local_backed (us : List Token) (is : List Diagnostic) :
    Local stop us is (Node.Backed us is) where
  tokenless n h := by
    cases n with
    | literal | access | declare => cases h
    | _ => trivial
  literal _ h hkind := ⟨h, hkind⟩
  access _ h hkind := ⟨h, hkind⟩
  declare h := h.backed

theorem Complaint.kind {found : Token} {d : Diagnostic} (h : Complaint found d) :
    d.kind = .expectedToken := by
  cases h <;> rfl

theorem Complaint.span_eq {found : Token} {d : Diagnostic} (h : Complaint found d) :
    d.span = found.span := by
  cases h <;> rfl

theorem Complaint.opensWith {found : Token} {d : Diagnostic} (h : Complaint found d) :
    d.OpensWith "Expected " := by
  cases h <;>
    simp [Diagnostic.OpensWith, Expectation.diagnostic, MissingExpression.diagnostic, toString]

end Grammar

structure Parsed.Accounted (p : Parsed) (ts : List Token) (ds issues : List Diagnostic) : Prop where
  diagnostics_eq : p.diagnostics = ds ++ issues
  complaint : ∀ d ∈ issues, ∃ found, Grammar.Complaint found d
  missingSpans_eq : missingSpans p.program.nodes = reportedSpans issues
  backed : ∀ n ∈ p.program.nodes, n.Backed ts issues

theorem exists_accounted {ts : List Token} (hts : ts ≠ []) (ds : List Diagnostic) :
    ∃ issues, (parse ts ds).Accounted ts ds issues ∧ (parse ts []).diagnostics = issues := by
  rw [parse_eq hts, parse_eq hts]
  have hreads := reads_proper ts
  have hproper : Tokens.proper ts ⊆ ts := (List.takeWhile_prefix _).subset
  have hbacked := (Grammar.local_backed ts _).of_reads hreads hproper (List.Subset.refl _) nofun
  have hcomplaint : ∀ d ∈ (Grammar.statements (Tokens.stop ts) false (Tokens.proper ts)).issues,
      ∃ found, Grammar.Complaint found d := by
    intro d hd
    obtain ⟨found, -, hfound⟩ := hreads.reports.complaint d hd
    exact ⟨found, hfound⟩
  exact ⟨_, ⟨rfl, hcomplaint, hreads.missingSpans_eq, hbacked⟩, rfl⟩

end Scriptlet
