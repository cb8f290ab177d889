import Scriptlet.Proofs.Syntax.Spelling

/-! The grammar, and the token lists that it derives. It is ambiguous: a sign may take less
than the whole factor after it, and a sign after a block may start a statement or continue the
block. -/

namespace Scriptlet

/-- A chain is what may follow the first operand of a tier. -/
inductive Category
  | program | statement | expression | block
  | tier (t : Tier)
  | chain (t : Tier)

inductive Derives : Category → List Token → Prop
  | nil : Derives .program []
  | cons {xs ys} (h : Derives .statement xs) (hrest : Derives .program ys) :
      Derives .program (xs ++ ys)
  | breakLoop {word mark : Token} (hword : word.keyword? = some .breakWord)
      (hmark : mark.kind = .semicolon) : Derives .statement [word, mark]
  | continueLoop {word mark : Token} (hword : word.keyword? = some .continueWord)
      (hmark : mark.kind = .semicolon) : Derives .statement [word, mark]
  | closed {xs} {mark : Token} (h : Derives .expression xs) (hmark : mark.kind = .semicolon) :
      Derives .statement (xs ++ [mark])
  | bare {xs} (h : Derives .block xs) : Derives .statement xs
  | declare {word name mark : Token} {xs} (hword : word.keyword? = some .declare)
      (hname : name.kind = .identifier) (hmark : mark.kind = .equal)
      (hvalue : Derives .expression xs) : Derives .expression (word :: name :: mark :: xs)
  | logical {xs} (h : Derives (.tier .logical) xs) : Derives .expression xs
  | negation {word : Token} {xs} (hword : word.keyword? = some .notWord)
      (h : Derives (.tier .comparison) xs) : Derives (.tier .comparison) (word :: xs)
  | operands {t xs ys} (ht : t ≠ .primary) (hfirst : Derives (.tier t.operand) xs)
      (hchain : Derives (.chain t) ys) : Derives (.tier t) (xs ++ ys)
  | last {t} : Derives (.chain t) []
  | join {t : Tier} {token : Token} {xs ys} (htoken : t.joins token)
      (hoperand : Derives (.tier t.operand) xs) (hchain : Derives (.chain t) ys) :
      Derives (.chain t) (token :: (xs ++ ys))
  | group {opening close : Token} {xs} (hopen : opening.kind = .leftParen)
      (h : Derives .expression xs) (hclose : close.kind = .rightParen) :
      Derives (.tier .primary) (opening :: (xs ++ [close]))
  | access {name : Token} (hname : name.kind = .identifier) : Derives (.tier .primary) [name]
  | literal {token : Token} (htoken : token.kind = .number) : Derives (.tier .primary) [token]
  | signed {sign : Token} {xs} (hsign : sign.kind = .plus ∨ sign.kind = .minus)
      (h : Derives (.tier .factor) xs) : Derives (.tier .primary) (sign :: xs)
  | primary {xs} (h : Derives .block xs) : Derives (.tier .primary) xs
  | block {word opening closing brace last : Token} {xs ys}
      (hword : word.keyword? = some .ifWord ∨ word.keyword? = some .whileWord)
      (hopen : opening.kind = .leftParen) (hcondition : Derives .expression xs)
      (hclose : closing.kind = .rightParen) (hbrace : brace.kind = .leftBrace)
      (hbody : Derives .program ys) (hlast : last.kind = .rightBrace) :
      Derives .block (word :: opening :: (xs ++ closing :: brace :: (ys ++ [last])))

theorem UnaryOp.isSome_ofSign?_iff {t : Token} :
    (UnaryOp.ofSign? t).isSome ↔ t.kind = .plus ∨ t.kind = .minus := by
  unfold UnaryOp.ofSign?
  split <;> simp_all

namespace Derives

theorem chain_append {t : Tier} {xs ys : List Token} (hxs : Derives (.chain t) xs)
    (hys : Derives (.chain t) ys) : Derives (.chain t) (xs ++ ys) := by
  generalize hc : Category.chain t = c at hxs
  induction hxs with
  | last =>
    cases hc
    exact hys
  | join htoken hoperand _ _ ih =>
    cases hc
    have h := Derives.join htoken hoperand (ih rfl)
    simpa using h
  | _ => exact nomatch hc

theorem keyword?_head {x : Token} {xs : List Token} (h : Derives .block (x :: xs)) :
    x.keyword? = some .ifWord ∨ x.keyword? = some .whileWord := by
  cases h with
  | block hword => exact hword

end Derives

def Phrase.Derived : Phrase → List Token → Prop
  | .expression n, xs => Derives .expression xs ∧ (n.isBlock = true → Derives .block xs)
  | .tier t n, xs =>
    Derives (.tier t) xs ∧ (n.isBlock = true → Derives .block xs) ∧
      (t ≠ .primary → (t = .comparison → n.isNegation = false) →
        ∃ ys zs, xs = ys ++ zs ∧ Derives (.tier t.operand) ys ∧ Derives (.chain t) zs)
  | .statement _, xs => Derives .statement xs
  | .statements _, xs => Derives .program xs

theorem Phrase.derived_primary {n : Node} {xs : List Token} (h : Derives (.tier .primary) xs)
    (hn : n.isBlock = true → Derives .block xs) : (Phrase.tier .primary n).Derived xs :=
  ⟨h, hn, fun ht => absurd rfl ht⟩

namespace Spelled

theorem derived {p : Phrase} {ts : List Token} (h : Spelled p ts) : p.Derived ts := by
  induction h with
  | declare hword hname hmark _ ih => exact ⟨.declare hword hname hmark ih.1, nofun⟩
  | logical _ ih => exact ⟨.logical ih.1, ih.2.1⟩
  | negation hword _ ih => exact ⟨.negation hword ih.1, nofun, fun _ hn => nomatch hn rfl⟩
  | @operand t n ts ht _ ih =>
    have h := Derives.operands ht ih.1 .last
    rw [List.append_nil] at h
    exact ⟨h, ih.2.1, fun _ _ => ⟨ts, [], by simp, ih.1, .last⟩⟩
  | @join t token op left right xs ys hop hadmits _ _ ihleft ihright =>
    have htoken : t.joins token := Tier.isSome_operator?_iff.1 (by simp [hop])
    have ht : t ≠ .primary := by
      rintro rfl
      exact htoken
    have hn : t = .comparison → left.isNegation = false := by
      rintro rfl
      exact hadmits
    obtain ⟨first, chain, rfl, hfirst, hchain⟩ := ihleft.2.2 ht hn
    have hjoin : Derives (.chain t) (chain ++ token :: (ys ++ [])) :=
      hchain.chain_append (.join htoken ihright.1 .last)
    rw [List.append_nil] at hjoin
    refine ⟨?_, nofun, fun _ _ => ⟨first, _, by simp, hfirst, hjoin⟩⟩
    simpa using Derives.operands ht hfirst hjoin
  | group hopen _ hclose ih => exact Phrase.derived_primary (.group hopen ih.1 hclose) nofun
  | access hname => exact Phrase.derived_primary (.access hname) nofun
  | literal htoken => exact Phrase.derived_primary (.literal htoken) nofun
  | signed hsign _ ih =>
    have hsign := UnaryOp.isSome_ofSign?_iff.1 (Option.isSome_iff_exists.2 ⟨_, hsign⟩)
    exact Phrase.derived_primary (.signed hsign ih.1) nofun
  | block hword hopen _ hclose hbrace _ hlast ihcondition ihbody =>
    have hword := (Token.block?_eq_some hword).imp And.left And.left
    have h := Derives.block hword hopen ihcondition.1 hclose hbrace ihbody hlast
    exact Phrase.derived_primary (.primary h) fun _ => h
  | breakLoop hword hmark => exact .breakLoop hword hmark
  | continueLoop hword hmark => exact .continueLoop hword hmark
  | closed _ hmark ih => exact .closed ih.1 hmark
  | finished => exact .nil
  | next _ _ ih ihnext => exact .cons ih ihnext
  | bare hn _ _ _ ih ihnext => exact .cons (.bare (ih.2 hn)) ihnext

end Spelled
end Scriptlet
