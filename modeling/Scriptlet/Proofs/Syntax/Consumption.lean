import Scriptlet.Proofs.Syntax.Totality

/-! What a reading costs. No rule takes more tokens than there are, and what it reports is paid for
by the tokens that it takes: five reports a token are enough, since a word that opens a block has
the most demands behind it. Every report is about a token that the reading meets. -/

namespace Scriptlet
namespace Grammar
variable {stop : Token}

theorem Takes.cost {e : Expectation} {ts rest : List Token} {token : Token}
    {issues : List Diagnostic} (h : Takes stop e ts token rest issues) :
    ts.length = rest.length + 1 ∧ issues.length = 0 ∨
      ts.length = rest.length ∧ issues.length = 1 := by
  cases h with
  | met => exact .inl ⟨rfl, rfl⟩
  | unmet => exact .inr ⟨rfl, rfl⟩

/-- The reports that may still come when a tree is a whole statement: a tree that is no block may
lack its semicolon. -/
def due (n : Node) : Nat := if n.isBlock then 0 else 1

/-- The tokens taken pay for the reports made and for those still due, or else nothing was taken
and no more than one report was made. -/
def Paid (before after : Nat) (n : Node) (reports : Nat) : Prop :=
  reports + due n + 5 * after ≤ 5 * before ∨ after = before ∧ reports ≤ 1

namespace Paid
variable {before after reports : Nat} {n : Node}

theorem of_le (h : reports + 1 + 5 * after ≤ 5 * before) : Paid before after n reports := by
  have hdue : due n ≤ 1 := by
    unfold due
    split <;> omega
  exact .inl (by omega)

theorem of_isBlock (hn : n.isBlock = true) (h : reports + 5 * after ≤ 5 * before) :
    Paid before after n reports := by
  have hdue : due n = 0 := if_pos hn
  exact .inl (by omega)

theorem le (h : Paid before after n reports) : reports + 5 * after ≤ 5 * before + 1 := by
  rcases h with h | h <;> omega

end Paid

def Affordable : Finding → Nat → Nat → Nat → Prop
  | .expression n, before, after, reports => Paid before after n reports
  | .tier _ n, before, after, reports => Paid before after n reports
  | .chain _ left n, before, after, reports => ∀ start earlier,
    Paid start before left earlier → Paid start after n (earlier + reports)
  | .statement _, before, after, reports =>
    reports + 5 * after ≤ 5 * before ∨ after = before ∧ reports ≤ 2
  | .statements _ ns, before, after, reports =>
    reports + 5 * after ≤ 5 * before ∧ ns.length + after ≤ before

theorem paid_missing (ts : List Token) (s : Span) :
    Paid ts.length (ts.drop (missingExpression stop ts).used).length (.missing s) 1 := by
  cases ts with
  | nil =>
    rw [List.drop_nil]
    exact .inr ⟨rfl, Nat.le_refl 1⟩
  | cons first ts =>
    unfold missingExpression
    dsimp only
    split
    · exact .inr ⟨rfl, Nat.le_refl 1⟩
    · refine .of_le ?_
      rw [List.drop_succ_cons, List.drop_zero, List.length_cons]
      omega

theorem Reads.affordable {f : Finding} {ts rest : List Token} {issues : List Diagnostic}
    (h : Reads stop f ts rest issues) : Affordable f ts.length rest.length issues.length := by
  induction h with
  | declare _ hname hmark _ ih =>
    have hname := hname.cost
    have hmark := hmark.cost
    have hvalue := Paid.le ih
    refine Paid.of_le ?_
    simp only [List.length_append, List.length_cons]
    omega
  | logical _ _ ih => exact ih
  | negation _ _ ih | signed _ _ ih =>
    have hoperand := Paid.le ih
    refine Paid.of_le ?_
    rw [List.length_cons]
    omega
  | operands _ _ _ _ ihleft ihchain =>
    rw [List.length_append]
    exact ihchain _ _ ihleft
  | last => exact fun _ _ hleft => hleft
  | join _ _ _ ihright ihchain =>
    intro start earlier hleft
    have hleft := hleft.le
    have hright := Paid.le ihright
    rw [List.length_cons] at hleft
    rw [List.length_append, ← Nat.add_assoc]
    exact ihchain start _ (Paid.of_le (by omega))
  | group _ _ hclose ih =>
    have hclose := hclose.cost
    have hinner := Paid.le ih
    refine Paid.of_le ?_
    simp only [List.length_append, List.length_cons]
    omega
  | access | literal =>
    refine Paid.of_le ?_
    simp only [List.length_nil, List.length_cons]
    omega
  | block hword hopen _ hclose hbrace _ hlast ihcondition ihbody =>
    have hopen := hopen.cost
    have hcondition := Paid.le ihcondition
    have hclose := hclose.cost
    have hbrace := hbrace.cost
    have hbody := ihbody.1
    have hlast := hlast.cost
    refine Paid.of_isBlock ?_ ?_
    · obtain ⟨-, rfl⟩ | ⟨-, rfl⟩ := Token.block?_eq_some hword <;> rfl
    · simp only [List.length_append, List.length_cons]
      omega
  | missing => exact paid_missing ..
  | breakLoop _ hmark | continueLoop _ hmark =>
    have hmark := hmark.cost
    refine .inl ?_
    rw [List.length_cons]
    omega
  | closed _ _ _ hn hmark ih =>
    have hmark := hmark.cost
    have hdue : due _ = 1 := if_neg (Bool.eq_false_iff.1 hn)
    rw [Affordable, List.length_append]
    rcases ih with h | h
    · rw [hdue] at h
      omega
    · omega
  | closedBlock _ _ _ _ _ ih =>
    have hwhole := Paid.le ih
    rw [List.length_cons] at hwhole
    exact .inl (by omega)
  | bareBlock _ _ _ _ _ ih =>
    rcases ih with h | h
    · exact .inl (by omega)
    · exact .inr (by omega)
  | finished => exact ⟨Nat.le_refl _, Nat.le_refl _⟩
  | closing => exact ⟨by simp, by simp⟩
  | next _ _ hless _ ih ihnext =>
    obtain ⟨hissues, hcount⟩ := ihnext
    simp only [Affordable, List.length_append, List.length_cons] at ih ⊢
    omega
  | stalled _ _ _ ih ihnext =>
    -- a statement that takes nothing makes two reports at most, and costs a token all the same
    obtain ⟨hissues, hcount⟩ := ihnext
    simp only [Affordable, List.length_append, List.length_cons] at ih ⊢
    omega

theorem exists_append_stop_eq (stop : Token) (ts : List Token) :
    ∃ tail, ts ++ [stop] = lookahead stop ts :: tail := by
  cases ts with
  | nil => exact ⟨[], rfl⟩
  | cons first ts => exact ⟨ts ++ [stop], rfl⟩

def Meets (stop : Token) (ts rest : List Token) (t : Token) : Prop :=
  ∃ taken, ts = taken ++ rest ∧ (t ∈ taken ∨ t = lookahead stop rest)

namespace Meets
variable {ts ts₁ rest : List Token} {t : Token}

theorem first (h : rest <:+ ts) : Meets stop ts rest (lookahead stop ts) := by
  obtain ⟨taken, rfl⟩ := h
  refine ⟨taken, rfl, ?_⟩
  cases taken with
  | nil => exact .inr rfl
  | cons first taken => exact .inl List.mem_cons_self

theorem later (h : Meets stop ts₁ rest t) (hts : ts₁ <:+ ts) : Meets stop ts rest t := by
  obtain ⟨before, rfl⟩ := hts
  obtain ⟨taken, rfl, ht⟩ := h
  exact ⟨before ++ taken, (List.append_assoc ..).symm, ht.imp_left (List.mem_append_right before)⟩

theorem earlier (h : Meets stop ts ts₁ t) (hrest : rest <:+ ts₁) : Meets stop ts rest t := by
  obtain ⟨taken, rfl, ht | rfl⟩ := h
  · obtain ⟨more, rfl⟩ := hrest
    exact ⟨taken ++ more, (List.append_assoc ..).symm, .inl (List.mem_append_left more ht)⟩
  · exact (first hrest).later (List.suffix_append _ _)

theorem mem (h : Meets stop ts rest t) : t ∈ ts ++ [stop] := by
  obtain ⟨taken, rfl, ht | rfl⟩ := h
  · exact List.mem_append_left _ (List.mem_append_left _ ht)
  · obtain ⟨tail, htail⟩ := exists_append_stop_eq stop rest
    rw [List.append_assoc, htail]
    exact List.mem_append_right _ List.mem_cons_self

end Meets

inductive Complaint (found : Token) : Diagnostic → Prop
  | demand (e : Expectation) : Complaint found (e.diagnostic found)
  | missing : Complaint found (MissingExpression.diagnostic found)

/-- The reports of a reading in the order in which they are made. Each is a complaint about the
token that the reading has come to by then, and a reading never goes back. -/
inductive Told (stop : Token) : List Token → List Token → List Diagnostic → Prop
  | silent {ts rest} (h : rest <:+ ts) : Told stop ts rest []
  | report {ts us rest d ds} (h : us <:+ ts) (hd : Complaint (lookahead stop us) d)
      (hlater : Told stop us rest ds) : Told stop ts rest (d :: ds)

namespace Told
variable {ts ts₁ rest : List Token} {is js : List Diagnostic}

theorem isSuffix (h : Told stop ts rest is) : rest <:+ ts := by
  induction h with
  | silent h => exact h
  | report h _ _ ih => exact ih.trans h

theorem later (h : Told stop ts₁ rest js) (hts : ts₁ <:+ ts) : Told stop ts rest js := by
  cases h with
  | silent h => exact .silent (h.trans hts)
  | report h hd hlater => exact .report (h.trans hts) hd hlater

theorem cons (h : Told stop ts rest is) (first : Token) : Told stop (first :: ts) rest is :=
  h.later (List.suffix_cons first ts)

theorem append (h : Told stop ts ts₁ is) (hlater : Told stop ts₁ rest js) :
    Told stop ts rest (is ++ js) := by
  induction h with
  | silent h => exact hlater.later h
  | report h hd _ ih => exact .report h hd (ih hlater)

theorem leave (h : Told stop ts ts₁ is) (hrest : rest <:+ ts₁) : Told stop ts rest is := by
  simpa using h.append (.silent hrest)

theorem one {d : Diagnostic} (h : rest <:+ ts) (hd : Complaint (lookahead stop ts) d) :
    Told stop ts rest [d] :=
  .report List.suffix_rfl hd (.silent h)

end Told

theorem Takes.told {e : Expectation} {ts rest : List Token} {token : Token}
    {issues : List Diagnostic} (h : Takes stop e ts token rest issues) :
    Told stop ts rest issues := by
  cases h with
  | met => exact .silent (List.suffix_cons _ _)
  | unmet => exact .one List.suffix_rfl (.demand e)

theorem Reads.told {f : Finding} {ts rest : List Token} {issues : List Diagnostic}
    (h : Reads stop f ts rest issues) : Told stop ts rest issues := by
  induction h with
  | declare _ hname hmark _ ih => exact ((hname.told.append hmark.told).append ih).cons _
  | logical _ _ ih | bareBlock _ _ _ _ _ ih => exact ih
  | negation _ _ ih | signed _ _ ih => exact ih.cons _
  | operands _ _ _ _ ihleft ihchain => exact ihleft.append ihchain
  | join _ _ _ ihright ihchain => exact (ihright.append ihchain).cons _
  | last | finished | closing => exact .silent List.suffix_rfl
  | access | literal => exact .silent (List.suffix_cons _ _)
  | group _ _ hclose ih => exact (ih.append hclose.told).cons _
  | block _ hopen _ hclose hbrace _ hlast ihcondition ihbody =>
    have hcondition := (hopen.told.append ihcondition).append hclose.told
    exact (((hcondition.append hbrace.told).append ihbody).append hlast.told).cons _
  | missing => exact .one (List.drop_suffix _ _) .missing
  | breakLoop _ hmark | continueLoop _ hmark => exact hmark.told.cons _
  | closed _ _ _ _ hmark ih => exact ih.append hmark.told
  | closedBlock _ _ _ _ _ ih => exact ih.leave (List.suffix_cons _ _)
  | next _ _ _ _ ih ihnext => exact ih.append ihnext
  | stalled _ _ _ ih ihnext => exact ih.append (ihnext.cons _)

structure Reports (stop : Token) (ts rest : List Token) (issues : List Diagnostic) : Prop where
  isSuffix : rest <:+ ts
  complaint (d : Diagnostic) (hd : d ∈ issues) :
    ∃ found, Meets stop ts rest found ∧ Complaint found d

theorem Told.reports {ts rest : List Token} {issues : List Diagnostic}
    (h : Told stop ts rest issues) : Reports stop ts rest issues := by
  refine ⟨h.isSuffix, ?_⟩
  induction h with
  | silent => exact nofun
  | report h hd hlater ih =>
    rw [List.forall_mem_cons]
    refine ⟨⟨_, (Meets.first hlater.isSuffix).later h, hd⟩, fun d hmem => ?_⟩
    obtain ⟨found, hmeets, hcomplaint⟩ := ih d hmem
    exact ⟨found, hmeets.later h, hcomplaint⟩

theorem Reads.reports {f : Finding} {ts rest : List Token} {issues : List Diagnostic}
    (h : Reads stop f ts rest issues) : Reports stop ts rest issues :=
  h.told.reports

theorem Reads.isSuffix {f : Finding} {ts rest : List Token} {issues : List Diagnostic}
    (h : Reads stop f ts rest issues) : rest <:+ ts :=
  h.told.isSuffix

theorem Reads.rest_eq_nil {f : Finding} {ts rest : List Token} {issues : List Diagnostic}
    (h : Reads stop f ts rest issues) :
    match f with
    | .statements false _ => rest = []
    | _ => True := by
  induction h with
  | @finished inBlock => cases inBlock <;> trivial
  | @next inBlock _ _ _ _ _ _ _ _ _ _ _ _ _ ihnext => cases inBlock <;> exact ihnext
  | @stalled inBlock _ _ _ _ _ _ _ _ _ _ _ ihnext => cases inBlock <;> exact ihnext
  | _ => trivial

end Grammar
end Scriptlet
