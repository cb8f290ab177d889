import Scriptlet.Proofs.Syntax.Recovery

/-! How far the parts of a tree reach. A tree runs from the first token of its reading to one that
the reading meets, also where something is missing in it: what stands in for a missing part lies
where the reading has come to. -/

namespace Scriptlet

def Node.spans : Node → List Span
  | declare name _ s => [s, name.span]
  | n => [n.span]

theorem Node.span_mem_spans (n : Node) : n.span ∈ n.spans := by
  cases n <;> exact List.mem_cons_self

namespace Grammar
variable {stop : Token}

def Joins (stop : Token) (ts : List Token) (s : Span) : Prop :=
  ∃ us last, us <:+ ts ∧ last ∈ us ++ [stop] ∧ s = (lookahead stop us).span.through last.span

theorem Joins.mono {ts us : List Token} {s : Span} (h : Joins stop us s) (hts : us <:+ ts) :
    Joins stop ts s := by
  obtain ⟨vs, last, hvs, hlast⟩ := h
  exact ⟨vs, last, hvs.trans hts, hlast⟩

theorem joins_lookahead {ts us : List Token} (h : us <:+ ts) :
    Joins stop ts (lookahead stop us).span :=
  ⟨us, _, h, (Meets.first List.suffix_rfl).mem, rfl⟩

def Placed (stop : Token) (ts : List Token) (ns : List Node) : Prop :=
  ∀ n ∈ ns, ∀ s ∈ n.spans, Joins stop ts s

namespace Placed
variable {ts us : List Token} {ms ns : List Node}

theorem mono (h : Placed stop us ns) (hts : us <:+ ts) : Placed stop ts ns :=
  fun n hn s hs => (h n hn s hs).mono hts

theorem append (hms : Placed stop ts ms) (hns : Placed stop ts ns) : Placed stop ts (ms ++ ns) :=
  List.forall_mem_append.2 ⟨hms, hns⟩

end Placed

/-- The tree runs from the first token of a reading to one that the reading meets, and its nodes
lie among the tokens as well. -/
structure Lies (stop : Token) (ts rest : List Token) (n : Node) : Prop where
  extent : ∃ last, Meets stop ts rest last ∧ n.span = (lookahead stop ts).span.through last.span
  placed : Placed stop ts n.nodes

namespace Lies
variable {ts ts₁ rest : List Token} {n : Node} {last : Token}

theorem of_children {children : List Node} (hnodes : n.nodes = n :: children)
    (hlast : Meets stop ts rest last) (hspan : n.span = (lookahead stop ts).span.through last.span)
    (hspans : ∀ s ∈ n.spans, s = n.span ∨ Joins stop ts s) (hchildren : Placed stop ts children) :
    Lies stop ts rest n := by
  refine ⟨⟨last, hlast, hspan⟩, ?_⟩
  unfold Placed
  rw [hnodes, List.forall_mem_cons]
  refine ⟨fun s hs => ?_, hchildren⟩
  rcases hspans s hs with rfl | hjoins
  · exact ⟨ts, last, List.suffix_rfl, hlast.mem, hspan⟩
  · exact hjoins

theorem of_plain {children : List Node} (hnodes : n.nodes = n :: children)
    (hspans : n.spans = [n.span]) (hlast : Meets stop ts rest last)
    (hspan : n.span = (lookahead stop ts).span.through last.span)
    (hchildren : Placed stop ts children) : Lies stop ts rest n := by
  refine .of_children hnodes hlast hspan (fun s hs => .inl ?_) hchildren
  rw [hspans] at hs
  exact List.mem_singleton.1 hs

theorem leaf (hnodes : n.nodes = [n]) (hspans : n.spans = [n.span])
    (hspan : n.span = (lookahead stop ts).span) (hrest : rest <:+ ts) : Lies stop ts rest n :=
  .of_plain hnodes hspans (.first hrest) hspan nofun

theorem leave (h : Lies stop ts ts₁ n) (hrest : rest <:+ ts₁) : Lies stop ts rest n := by
  obtain ⟨last, hlast, hspan⟩ := h.extent
  exact ⟨⟨last, hlast.earlier hrest, hspan⟩, h.placed⟩

theorem prefixed {first : Token} (op : UnaryOp) (h : Lies stop ts rest n) :
    Lies stop (first :: ts) rest (.unary op n (first.span.through n.span)) := by
  obtain ⟨last, hlast, hspan⟩ := h.extent
  have hts := List.suffix_cons first ts
  refine .of_plain (Node.nodes_unary ..) rfl (hlast.later hts) ?_ (h.placed.mono hts)
  show first.span.through n.span = first.span.through last.span
  rw [hspan]
  rfl

theorem join {us : List Token} {left right : Node} (op : BinaryOp) (hleft : Lies stop us ts₁ left)
    (hright : Lies stop ts rest right) (hts : ts <:+ us) :
    Lies stop us rest (.binary left op right (left.span.through right.span)) := by
  obtain ⟨_, -, hstart⟩ := hleft.extent
  obtain ⟨last, hlast, hspan⟩ := hright.extent
  refine .of_plain (Node.nodes_binary ..) rfl (hlast.later hts) ?_
    (hleft.placed.append (hright.placed.mono hts))
  show left.span.through right.span = (lookahead stop us).span.through last.span
  rw [hstart, hspan]
  rfl

end Lies

theorem Takes.span_eq {e : Expectation} {ts rest : List Token} {token : Token}
    {issues : List Diagnostic} (h : Takes stop e ts token rest issues) :
    token.span = (lookahead stop ts).span := by
  cases h <;> rfl

theorem Takes.meets {e : Expectation} {ts rest : List Token} {token : Token}
    {issues : List Diagnostic} (h : Takes stop e ts token rest issues) :
    Meets stop ts rest (lookahead stop ts) :=
  .first h.isSuffix

def Located (stop : Token) (ts rest : List Token) : Finding → Prop
  | .expression n | .tier _ n | .statement n => Lies stop ts rest n
  | .chain _ left n => ∀ us, ts <:+ us → Lies stop us ts left → Lies stop us rest n
  | .statements _ ns => Placed stop ts (Program.nodes ns)

theorem Reads.located {f : Finding} {ts rest : List Token} {issues : List Diagnostic}
    (h : Reads stop f ts rest issues) : Located stop ts rest f := by
  induction h with
  | @declare word name mark value ts ts₁ ts₂ _ _ _ _ _ hname hmark _ ih =>
    have hlies : Lies stop ts₂ _ value := ih
    obtain ⟨last, hlast, hspan⟩ := hlies.extent
    have hts := List.suffix_cons word ts
    have hvalue := (hmark.isSuffix.trans hname.isSuffix).trans hts
    have hplaced := hlies.placed.mono hvalue
    refine .of_children (Node.nodes_declare ..) (hlast.later hvalue) ?_ ?_ hplaced
    · show word.span.through value.span = word.span.through last.span
      rw [hspan]
      rfl
    · simp only [Node.spans, List.forall_mem_cons]
      refine ⟨.inl rfl, .inr ?_, nofun⟩
      rw [hname.span_eq]
      exact joins_lookahead hts
  | logical _ _ ih => exact ih
  | negation _ _ ih | signed _ _ ih => exact Lies.prefixed _ ih
  | operands _ _ hleft _ ihleft ihchain => exact ihchain _ hleft.isSuffix ihleft
  | last => exact fun _ _ hleft => hleft
  | join _ hright _ ihright ihchain =>
    intro us hus hleft
    have hts := (List.suffix_cons _ _).trans hus
    exact ihchain us (hright.isSuffix.trans hts) (Lies.join _ hleft ihright hts)
  | @group opening close n ts ts₁ _ _ _ _ h hclose ih =>
    have hts := List.suffix_cons opening ts
    have hlast := hclose.meets.later (h.isSuffix.trans hts)
    refine .of_plain (Node.nodes_group ..) rfl hlast ?_ (Placed.mono (Lies.placed ih) hts)
    exact congrArg (Span.through _) hclose.span_eq
  | access | literal => exact .leaf rfl rfl rfl (List.suffix_cons _ _)
  | @block word opening closing brace last make condition body ts ts₁ ts₂ ts₃ ts₄ ts₅ rest _ _ _ _
      _ _ hword hopen hcondition hclose hbrace hbody hlast ihcondition ihbody =>
    have h₁ := hopen.isSuffix.trans (List.suffix_cons word ts)
    have h₄ := hbrace.isSuffix.trans (hclose.isSuffix.trans (hcondition.isSuffix.trans h₁))
    have hmeets := hlast.meets.later (hbody.isSuffix.trans h₄)
    have hplaced : Placed stop (word :: ts) (condition.nodes ++ Program.nodes body) :=
      (Placed.mono (Lies.placed ihcondition) h₁).append (Placed.mono ihbody h₄)
    have hspan : word.span.through last.span =
        word.span.through (lookahead stop ts₅).span :=
      congrArg (Span.through _) hlast.span_eq
    obtain ⟨-, rfl⟩ | ⟨-, rfl⟩ := Token.block?_eq_some hword
    · exact .of_plain (Node.nodes_branch ..) rfl hmeets hspan hplaced
    · exact .of_plain (Node.nodes_loop ..) rfl hmeets hspan hplaced
  | missing => exact .leaf rfl rfl rfl (List.drop_suffix _ _)
  | breakLoop _ hmark | continueLoop _ hmark =>
    exact .leaf rfl rfl rfl (hmark.isSuffix.trans (List.suffix_cons _ _))
  | closed _ _ _ _ hmark ih => exact Lies.leave ih hmark.isSuffix
  | closedBlock _ _ _ _ _ ih => exact Lies.leave ih (List.suffix_cons _ _)
  | bareBlock _ _ _ _ _ ih => exact ih
  | finished | closing => exact nofun
  | next _ h _ _ ih ihnext =>
    rw [Located, Program.nodes_cons]
    exact (Lies.placed ih).append (Placed.mono ihnext h.isSuffix)
  | stalled _ _ _ ih ihnext =>
    rw [Located, Program.nodes_cons]
    exact (Lies.placed ih).append (Placed.mono ihnext (List.suffix_cons _ _))

end Grammar
end Scriptlet
