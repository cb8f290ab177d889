import Scriptlet.Proofs.Syntax.BlockEnd

/-! The parser accepts what the grammar derives. Each derivation is turned into a spelling: an
operator that follows a sign is moved under it, and a sign that follows a bare block is made to
continue the block. -/

namespace Scriptlet
namespace Spelled

theorem admits_of_endsInSign {t : Tier} {n : Node} (ht : t.height ≤ Tier.factor.height)
    (hn : n.endsInSign = false) : t.admits n := by
  cases t with
  | factor | power => exact hn
  | _ => trivial

theorem attach {u : Tier} {token : Token} {op : BinaryOp} {right : Node} {ys : List Token}
    (hu : u.height ≤ Tier.factor.height) (hop : u.operator? token = some op)
    (hright : Spelled (.tier u.operand right) ys) {p : Phrase} {xs : List Token}
    (h : Spelled p xs) :
    match p with
    | .tier t n => t.height ≤ Tier.factor.height → u.height ≤ t.height ∨ n.endsInSign = true →
      ∃ m, Spelled (.tier t m) (xs ++ token :: ys)
    | _ => True := by
  have hprimary : ¬ u.height ≤ Tier.primary.height := by
    intro hle
    obtain rfl : u = .primary := by cases u <;> first | rfl | exact absurd hle (by decide)
    exact nomatch hop.symm.trans (Tier.operator?_primary token)
  -- an operator that reaches this tier but goes under no sign is the tier's own
  have hjoin {t : Tier} {n : Node} {xs : List Token} (h : Spelled (.tier t n) xs)
      (ht : t.height ≤ Tier.factor.height) (hend : u.height ≤ t.height ∨ n.endsInSign = true)
      (hunder : ¬ (u.height ≤ t.operand.height ∨ n.endsInSign = true)) :
      ∃ m, Spelled (.tier t m) (xs ++ token :: ys) := by
    obtain ⟨hlt, hn⟩ := not_or.1 hunder
    obtain rfl : u = t := Decidable.byContradiction fun hne =>
      hlt (Tier.height_le_operand (hend.resolve_right hn) hne)
    exact ⟨_, .join hop (admits_of_endsInSign ht (Bool.eq_false_iff.2 hn)) h hright⟩
  induction h with
  | negation => exact fun hle => absurd hle (by decide)
  | @operand t n xs ht h ih =>
    intro hle hend
    by_cases hunder : u.height ≤ t.operand.height ∨ n.endsInSign = true
    · have hlt := Tier.height_operand_lt ht
      obtain ⟨m, hm⟩ := ih (by omega) hunder
      exact ⟨m, .operand ht hm⟩
    · exact hjoin (.operand ht h) hle hend hunder
  | @join t token' op' left right' xs ys' hop' hadmits hleft hright' _ ih =>
    intro hle hend
    by_cases hunder : u.height ≤ t.operand.height ∨ right'.endsInSign = true
    · have ht : t ≠ .primary := by
        rintro rfl
        exact nomatch hop'.symm.trans (Tier.operator?_primary token')
      have hlt := Tier.height_operand_lt ht
      obtain ⟨m, hm⟩ := ih (by omega) hunder
      have h := Spelled.join hop' hadmits hleft hm
      exact ⟨_, by simpa using h⟩
    · exact hjoin (.join hop' hadmits hleft hright') hle hend hunder
  | group | access | literal => exact fun _ hend => hend.elim (absurd · hprimary) nofun
  | signed hsign _ ih =>
    intro _ _
    obtain ⟨m, hm⟩ := ih (Nat.le_refl _) (.inl hu)
    exact ⟨_, .signed hsign hm⟩
  | block hword =>
    refine fun _ hend => hend.elim (absurd · hprimary) ?_
    obtain ⟨-, rfl⟩ | ⟨-, rfl⟩ := Token.block?_eq_some hword <;> exact nofun
  | _ => trivial

theorem exists_cons_statements {n : Node} {bs : List Token} (hn : n.isBlock = true)
    (hblock : Spelled (.tier .primary n) bs) {ns : List Node} {ts : List Token}
    (h : Spelled (.statements ns) ts) : ∃ ms, Spelled (.statements ms) (bs ++ ts) := by
  by_cases hsign : ∀ y ∈ ts.head?, UnaryOp.ofSign? y = none
  · exact ⟨n :: ns, .bare hn (.logical (hblock.of_primary .logical)) hsign h⟩
  obtain ⟨sign, xs, rfl⟩ : ∃ sign xs, ts = sign :: xs := by
    refine List.exists_cons_of_ne_nil ?_
    rintro rfl
    simp at hsign
  have hsome : (UnaryOp.ofSign? sign).isSome := by simpa [Option.isSome_iff_ne_none] using hsign
  obtain ⟨m, ms, -, hms⟩ := hblock.continued h sign xs rfl hsome
  exact ⟨_, hms⟩

theorem exists_join {t : Tier} {left right : Node} {token : Token} {xs ys : List Token}
    (hleft : Spelled (.tier t left) xs) (hneg : t = .comparison → left.isNegation = false)
    (htoken : t.joins token) (hright : Spelled (.tier t.operand right) ys) :
    ∃ n, Spelled (.tier t n) (xs ++ token :: ys) ∧ (t = .comparison → n.isNegation = false) := by
  obtain ⟨op, hop⟩ := Option.isSome_iff_exists.1 (Tier.isSome_operator?_iff.2 htoken)
  cases t with
  | logical | term => exact ⟨_, .join hop trivial hleft hright, nofun⟩
  | comparison => exact ⟨_, .join hop (hneg rfl) hleft hright, fun _ => rfl⟩
  | factor | power =>
    obtain ⟨m, hm⟩ := attach (by decide) hop hright hleft (by decide) (.inl (Nat.le_refl _))
    exact ⟨m, hm, nofun⟩
  | primary => exact htoken.elim

end Spelled

theorem Token.exists_block? {word : Token}
    (h : word.keyword? = some .ifWord ∨ word.keyword? = some .whileWord) :
    ∃ make, word.block? = some make ∧
      ∀ condition body s, (make condition body s).isBlock = true := by
  rcases h with h | h
  · exact ⟨.branch, by simp [block?, h], fun _ _ _ => rfl⟩
  · exact ⟨.loop, by simp [block?, h], fun _ _ _ => rfl⟩

def Category.Spellable : Category → List Token → Prop
  | program, xs => ∃ ns, Spelled (.statements ns) xs
  | statement, xs =>
    (∃ n, Spelled (.statement n) xs) ∨ ∃ n : Node, n.isBlock = true ∧ Spelled (.tier .primary n) xs
  | expression, xs => ∃ n, Spelled (.expression n) xs
  | block, xs => ∃ n : Node, n.isBlock = true ∧ Spelled (.tier .primary n) xs
  | tier t, xs =>
    ∃ n, Spelled (.tier t n) xs
  | chain t, xs =>
    ∀ left ls, Spelled (.tier t left) ls → (t = .comparison → left.isNegation = false) →
      ∃ n, Spelled (.tier t n) (ls ++ xs)

theorem Derives.spellable {c : Category} {ts : List Token} (h : Derives c ts) : c.Spellable ts := by
  induction h with
  | nil => exact ⟨[], .finished⟩
  | cons _ _ ih ihrest =>
    obtain ⟨ns, hns⟩ := ihrest
    rcases ih with ⟨n, hn⟩ | ⟨n, hblock, hn⟩
    · exact ⟨_, .next hn hns⟩
    -- a sign behind the block is its operator, whatever statement starts with it
    · exact hn.exists_cons_statements hblock hns
  | breakLoop hword hmark => exact .inl ⟨_, .breakLoop hword hmark⟩
  | continueLoop hword hmark => exact .inl ⟨_, .continueLoop hword hmark⟩
  | closed _ hmark ih =>
    obtain ⟨n, hn⟩ := ih
    exact .inl ⟨n, .closed hn hmark⟩
  | bare _ ih => exact .inr ih
  | declare hword hname hmark _ ih =>
    obtain ⟨n, hn⟩ := ih
    exact ⟨_, .declare hword hname hmark hn⟩
  | logical _ ih =>
    obtain ⟨n, hn⟩ := ih
    exact ⟨n, .logical hn⟩
  | negation hword _ ih =>
    obtain ⟨n, hn⟩ := ih
    exact ⟨_, .negation hword hn⟩
  | @operands t xs ys ht _ _ ihfirst ihchain =>
    obtain ⟨n, hn⟩ := ihfirst
    refine ihchain n xs (.operand ht hn) ?_
    rintro rfl
    exact hn.isNegation_eq_false (by decide)
  | last => exact fun left ls hls _ => ⟨left, by simpa using hls⟩
  | @join t token xs ys htoken _ _ ihoperand ihchain =>
    intro left ls hls hneg
    obtain ⟨right, hright⟩ := ihoperand
    obtain ⟨m, hm, hmneg⟩ := hls.exists_join hneg htoken hright
    obtain ⟨n, hn⟩ := ihchain m _ hm hmneg
    exact ⟨n, by simpa using hn⟩
  | group hopen _ hclose ih =>
    obtain ⟨n, hn⟩ := ih
    exact ⟨_, .group hopen hn hclose⟩
  | access hname => exact ⟨_, .access hname⟩
  | literal htoken => exact ⟨_, .literal htoken⟩
  | signed hsign _ ih =>
    obtain ⟨n, hn⟩ := ih
    obtain ⟨op, hop⟩ := Option.isSome_iff_exists.1 (UnaryOp.isSome_ofSign?_iff.2 hsign)
    exact ⟨_, .signed hop hn⟩
  | primary _ ih =>
    obtain ⟨n, -, hn⟩ := ih
    exact ⟨n, hn⟩
  | block hword hopen _ hclose hbrace _ hlast ihcondition ihbody =>
    obtain ⟨condition, hcondition⟩ := ihcondition
    obtain ⟨body, hbody⟩ := ihbody
    obtain ⟨make, hmake, hblock⟩ := Token.exists_block? hword
    exact ⟨_, hblock _ _ _, .block hmake hopen hcondition hclose hbrace hbody hlast⟩

/-- A list with any prior diagnostics is parsed without a further one exactly if the tokens
before its end are derived by the grammar. -/
theorem parse_accepts_iff_derives {ts : List Token} (hts : ts ≠ []) (ds : List Diagnostic) :
    (parse ts ds).diagnostics = ds ↔ Derives .program (Tokens.proper ts) := by
  refine ⟨fun h => ((parse_diagnostics_eq_iff hts).1 h).derived, fun h => ?_⟩
  obtain ⟨ns, hns⟩ := h.spellable
  rw [(parse_eq_iff_spelled hts ds).2 hns]

theorem parse_accepts_signed_product :
    (parse [⟨.minus, "-", none, .nowhere⟩, ⟨.identifier, "a", none, .nowhere⟩,
      ⟨.star, "*", none, .nowhere⟩, ⟨.identifier, "b", none, .nowhere⟩,
      ⟨.semicolon, ";", none, .nowhere⟩, .endOfInput (.start "")] []).diagnostics = [] := by
  refine (parse_accepts_iff_derives (List.cons_ne_nil _ _) []).2 ?_
  have name {x : Token} (hx : x.kind = .identifier) (t : Tier) : Derives (.tier t) [x] :=
    ((Spelled.access hx).of_primary t).derived.1
  have hsigned : Derives (.tier .primary)
      [⟨.minus, "-", none, .nowhere⟩, ⟨.identifier, "a", none, .nowhere⟩] :=
    .signed (.inr rfl) (name rfl .factor)
  have hchain : Derives (.chain .factor)
      (⟨.star, "*", none, .nowhere⟩ :: ([⟨.identifier, "b", none, .nowhere⟩] ++ [])) :=
    .join (.inl rfl) (name rfl .power) .last
  have hpower := Derives.operands (t := .power) (by decide) hsigned .last
  have hfactor := Derives.operands (t := .factor) (by decide) hpower hchain
  have hterm := Derives.operands (t := .term) (by decide) hfactor .last
  have hcomparison := Derives.operands (t := .comparison) (by decide) hterm .last
  have hlogical := Derives.operands (t := .logical) (by decide) hcomparison .last
  exact .cons (.closed (.logical hlogical) rfl) .nil

end Scriptlet
