import Mathlib.Data.Nat.Digits.Defs
import Mathlib.Data.Rat.Cast.Defs
import Scriptlet.Proofs.Token.LongestMatch

/-! What number literals are worth. A run of digits is a whole number if it is one of 64 bits, and
else a float; a numeral with a point is always a float. Reading digit by digit in words of 64 bits,
with a check at each step, finds just the runs that fit, however many zeros they start with. -/

namespace Scriptlet

namespace Decimal

def placeValue (cs : List Char) : Nat := Nat.ofDigits 10 (cs.map digitValue).reverse

theorem natOfDigits_eq (cs : List Char) : natOfDigits cs = placeValue cs := by
  rw [placeValue, Nat.ofDigits_eq_foldr, List.foldr_reverse, List.foldl_map, natOfDigits]
  refine congrArg (fun step => cs.foldl step 0) (funext fun n => funext fun c => ?_)
  exact Nat.add_comm _ _

theorem natOfDigits_append (xs ys : List Char) :
    natOfDigits (xs ++ ys) = natOfDigits xs * 10 ^ ys.length + natOfDigits ys := by
  simp only [natOfDigits_eq, placeValue, List.map_append, List.reverse_append, Nat.ofDigits_append,
    List.length_reverse, List.length_map]
  rw [Nat.mul_comm, Nat.add_comm]

def toRat (d : Decimal) : ℚ := d.digits * 10 ^ d.exponent

def checked? (exact : Int) (word : Int64) : Option Int64 :=
  if -2 ^ 63 ≤ exact ∧ exact < 2 ^ 63 then some word else none

def push? (n : Int64) (c : Char) : Option Int64 :=
  if c.isDigit then
    let digit := Int64.ofNat (digitValue c)
    (checked? (n.toInt * 10) (n * 10)).bind fun tens =>
      checked? (tens.toInt + digit.toInt) (tens + digit)
  else none

def int64? : List Char → Option Int64
  | [] => none
  | cs => cs.foldlM push? 0

theorem digitValue_lt {c : Char} (h : c.isDigit = true) : digitValue c < 10 := by
  simp only [Char.isDigit, Bool.and_eq_true, decide_eq_true_eq, UInt32.le_iff_toNat_le] at h
  have hnine : c.toNat ≤ 57 := h.2
  have hzero : '0'.toNat = 48 := rfl
  rw [digitValue, hzero]
  omega

theorem checked?_eq_none {exact : Int} {word : Int64} (h : 2 ^ 63 ≤ exact) :
    checked? exact word = none := if_neg fun hrange => absurd hrange.2 (Int.not_lt.2 h)

theorem exists_checked? {exact : Int} {word : Int64} (hword : word.toInt = exact.bmod (2 ^ 64))
    (hnonneg : 0 ≤ exact) (hlt : exact < 2 ^ 63) :
    ∃ n, checked? exact word = some n ∧ n.toInt = exact := by
  refine ⟨word, if_pos ⟨by omega, hlt⟩, ?_⟩
  rw [hword, Int.bmod_eq_of_le (by omega) (by omega)]

theorem map_push? {n : Int64} {k : Nat} (hn : n.toInt = k) {c : Char} (hc : c.isDigit = true) :
    (push? n c).map Int64.toInt =
      if 10 * k + digitValue c < 2 ^ 63 then some ((10 * k + digitValue c : Nat) : Int)
      else none := by
  have hdigit := digitValue_lt hc
  have hword : (Int64.ofNat (digitValue c)).toInt = digitValue c :=
    Int64.toInt_ofNat_of_lt (by omega)
  rw [push?, if_pos hc]
  by_cases htens : 2 ^ 63 ≤ n.toInt * 10
  · have hover : ¬ 10 * k + digitValue c < 2 ^ 63 := by omega
    rw [checked?_eq_none htens, if_neg hover]
    rfl
  · have htoIntMul : (n * 10).toInt = (n.toInt * 10).bmod (2 ^ 64) := Int64.toInt_mul n 10
    obtain ⟨tens, hchecked, htoInt⟩ :=
      exists_checked? htoIntMul (by omega) (Int.not_le.1 htens)
    rw [hchecked, Option.bind_some]
    by_cases hsum : 10 * k + digitValue c < 2 ^ 63
    · obtain ⟨m, hm, hvalue⟩ :=
        exists_checked? (Int64.toInt_add tens (Int64.ofNat (digitValue c))) (by omega) (by omega)
      rw [hm, if_pos hsum, Option.map_some, hvalue]
      congr 1
      omega
    · rw [checked?_eq_none (by omega), if_neg hsum]
      rfl

/-- Reading digits behind a number that fits gives the exact number, or nothing if that does not
fit. A number that is too large for the words stays so with every further digit. -/
theorem map_foldlM_push? {cs : List Char} (hcs : ∀ c ∈ cs, c.isDigit = true) {n : Int64} {k : Nat}
    (hn : n.toInt = k) (hk : k < 2 ^ 63) :
    (cs.foldlM push? n).map Int64.toInt =
      if k * 10 ^ cs.length + natOfDigits cs < 2 ^ 63 then
        some ((k * 10 ^ cs.length + natOfDigits cs : Nat) : Int)
      else none := by
  induction cs generalizing n k with
  | nil =>
    have hvalue : k * 10 ^ ([] : List Char).length + natOfDigits [] = k := by simp [natOfDigits]
    rw [hvalue, if_pos hk, ← hn]
    rfl
  | cons c cs ih =>
    obtain ⟨hc, hcs⟩ := List.forall_mem_cons.1 hcs
    have hpush := map_push? hn hc
    have hsingle : natOfDigits [c] = digitValue c := by simp [natOfDigits]
    have hvalue : k * 10 ^ (c :: cs).length + natOfDigits (c :: cs) =
        (10 * k + digitValue c) * 10 ^ cs.length + natOfDigits cs := by
      rw [← List.singleton_append, natOfDigits_append, hsingle, List.length_append,
        List.length_singleton]
      ring
    rw [List.foldlM_cons, hvalue]
    split at hpush
    · next hfits =>
      obtain ⟨m, hm, hmvalue⟩ := Option.map_eq_some_iff.1 hpush
      rw [hm]
      exact ih hcs hmvalue hfits
    · next hover =>
      -- the digits to come make the number no smaller
      have hlarger := Nat.le_mul_of_pos_right (10 * k + digitValue c)
        (Nat.pow_pos (n := cs.length) (by decide : 0 < 10))
      rw [Option.map_eq_none_iff.1 hpush, if_neg (by omega)]
      rfl

theorem map_int64? {cs : List Char} (hne : cs ≠ []) (hcs : ∀ c ∈ cs, c.isDigit = true) :
    (int64? cs).map Int64.toInt =
      if placeValue cs ≤ 2 ^ 63 - 1 then some (placeValue cs : Int) else none := by
  obtain ⟨c, more, rfl⟩ := List.exists_cons_of_ne_nil hne
  have hread := map_foldlM_push? hcs (n := 0) (k := 0) rfl (by decide)
  rw [Nat.zero_mul, Nat.zero_add, natOfDigits_eq] at hread
  have hfits : placeValue (c :: more) < 2 ^ 63 ↔ placeValue (c :: more) ≤ 2 ^ 63 - 1 := by omega
  exact hread.trans (if_congr hfits rfl rfl)

/-- The numerals, each with the value that it is written for. The digits behind a point are those
of a fraction, and there may be none. -/
inductive Writes : List Char → ℚ → Prop
  | whole {ds} (hne : ds ≠ []) (hds : ∀ d ∈ ds, d.isDigit = true) : Writes ds (placeValue ds)
  | pointed {ds es} (hne : ds ≠ []) (hds : ∀ d ∈ ds, d.isDigit = true)
      (hes : ∀ e ∈ es, e.isDigit = true) :
      Writes (ds ++ '.' :: es) (placeValue ds + placeValue es / 10 ^ es.length)

theorem ne_point_of_isDigit {c : Char} (h : c.isDigit = true) : c ≠ '.' := by
  rintro rfl
  exact absurd h (by decide)

theorem ofNumeral_whole {ds : List Char} (hds : ∀ d ∈ ds, d.isDigit = true) :
    ofNumeral ds = ⟨natOfDigits ds, 0⟩ := by
  have hall : ∀ d ∈ ds, decide (d ≠ '.') = true := fun d hd =>
    decide_eq_true (ne_point_of_isDigit (hds d hd))
  have hdrop : ds.dropWhile (· ≠ '.') = [] := List.dropWhile_eq_nil_iff.2 hall
  have htake : ds.takeWhile (· ≠ '.') = ds := List.takeWhile_eq_self_iff.2 hall
  rw [ofNumeral, hdrop, htake, List.drop_nil, List.append_nil]
  rfl

theorem ofNumeral_pointed {ds es : List Char} (hds : ∀ d ∈ ds, d.isDigit = true) :
    ofNumeral (ds ++ '.' :: es) = ⟨natOfDigits (ds ++ es), -(es.length : Int)⟩ := by
  have hall : ∀ d ∈ ds, decide (d ≠ '.') = true := fun d hd =>
    decide_eq_true (ne_point_of_isDigit (hds d hd))
  have hdrop : (ds ++ '.' :: es).dropWhile (· ≠ '.') = '.' :: es := by
    rw [List.dropWhile_append_of_pos hall, List.dropWhile_cons_of_neg (by simp)]
  have htake : (ds ++ '.' :: es).takeWhile (· ≠ '.') = ds := by
    rw [List.takeWhile_append_of_pos hall, List.takeWhile_cons_of_neg (by simp), List.append_nil]
  rw [ofNumeral, hdrop, htake]
  rfl

theorem Writes.toRat_eq {cs : List Char} {q : ℚ} (h : Writes cs q) : (ofNumeral cs).toRat = q := by
  cases h with
  | whole hne hds => simp [ofNumeral_whole hds, toRat, natOfDigits_eq]
  | @pointed ds es hne hds hes =>
    have hscale : (10 : ℚ) ^ es.length ≠ 0 := pow_ne_zero _ (by norm_num)
    rw [ofNumeral_pointed hds, toRat, natOfDigits_append, natOfDigits_eq, natOfDigits_eq]
    push_cast
    rw [zpow_neg, zpow_natCast, add_mul, mul_assoc, mul_inv_cancel₀ hscale, mul_one,
      div_eq_mul_inv]

theorem Writes.exists_cons {cs : List Char} {q : ℚ} (h : Writes cs q) :
    ∃ c more, cs = c :: more ∧ c.isDigit = true := by
  have hcons {ds : List Char} (hne : ds ≠ []) (hds : ∀ d ∈ ds, d.isDigit = true) (es : List Char) :
      ∃ c more, ds ++ es = c :: more ∧ c.isDigit = true := by
    obtain ⟨c, more, rfl⟩ := List.exists_cons_of_ne_nil hne
    exact ⟨c, more ++ es, rfl, hds c List.mem_cons_self⟩
  cases h with
  | whole hne hds => exact List.append_nil cs ▸ hcons hne hds []
  | pointed hne hds => exact hcons hne hds _

theorem Writes.digit_or_point {cs : List Char} {q : ℚ} (h : Writes cs q) {c : Char} (hc : c ∈ cs) :
    c.isDigit = true ∨ c = '.' := by
  cases h with
  | whole hne hds => exact .inl (hds c hc)
  | pointed hne hds hes =>
    rcases List.mem_append.1 hc with hc | hc
    · exact .inl (hds c hc)
    · rcases List.mem_cons.1 hc with rfl | hc
      · exact .inr rfl
      · exact .inl (hes c hc)

theorem Writes.signed?_eq {cs : List Char} {q : ℚ} (h : Writes cs q) :
    signed? cs = some (false, ofNumeral cs) := by
  obtain ⟨c, more, hcs, hc⟩ := h.exists_cons
  have hother {d x : Char} (hd : d.isDigit = true ∨ d = '.') (hx : x.isDigit = false)
      (hpoint : x ≠ '.') : d ≠ x := by
    rintro rfl
    rcases hd with hd | hd
    · exact nomatch hd.symm.trans hx
    · exact hpoint hd
  have hfirst {x : Char} (hx : x.isDigit = false) (hpoint : x ≠ '.') (rest : List Char) :
      cs ≠ x :: rest := by
    rw [hcs]
    exact fun heq => hother (.inl hc) hx hpoint (List.cons.inj heq).1
  have hmark : ∀ d ∈ cs, (!(decide (d = 'e') || decide (d = 'E'))) = true := fun d hd => by
    have hchar := h.digit_or_point hd
    simp [hother hchar (x := 'e') (by decide) (by decide),
      hother hchar (x := 'E') (by decide) (by decide)]
  have hall : (cs.all fun d => d.isDigit || decide (d = '.')) = true :=
    List.all_eq_true.2 fun d hd => by simpa using h.digit_or_point hd
  have hdigit : cs.any Char.isDigit = true :=
    List.any_eq_true.2 ⟨c, hcs ▸ List.mem_cons_self, hc⟩
  rw [signed?]
  · simp only [List.takeWhile_eq_self_iff.2 hmark, List.dropWhile_eq_nil_iff.2 hmark, hall, hdigit]
    simp [scale, natOfDigits]
  · exact hfirst (by decide) (by decide)
  · exact hfirst (by decide) (by decide)

theorem Writes.readFloat?_eq {cs : List Char} {q : ℚ} (h : Writes cs q) :
    readFloat? (String.ofList cs) = some (ofNumeral cs).toFloat := by
  obtain ⟨c, more, hcs, hc⟩ := h.exists_cons
  have hne {text : String} (htext : text.toList.head?.any Char.isDigit = false) :
      String.ofList cs ≠ text := by
    rintro rfl
    rw [String.toList_ofList, hcs, List.head?_cons, Option.any_some, hc] at htext
    exact nomatch htext
  unfold readFloat?
  split
  · next heq => exact absurd heq (hne (by decide))
  · next heq => exact absurd heq (hne (by decide))
  · next heq => exact absurd heq (hne (by decide))
  · rw [String.toList_ofList, h.signed?_eq]
    rfl

end Decimal

namespace Literal

/-- Reads a numeral in words of 64 bits if it has no point, and as a float if it has one or does not
fit. A numeral that could not be read as a float would be taken for `pointed`, or for `wide`. -/
def read (pointed wide : Float) (cs : List Char) : Literal :=
  if '.' ∈ cs then float ((Decimal.readFloat? (String.ofList cs)).getD pointed)
  else
    match Decimal.int64? cs with
    | some n => int n.toInt
    | none => float ((Decimal.readFloat? (String.ofList cs)).getD wide)

theorem ofNumeral_of_point {cs : List Char} (h : '.' ∈ cs) :
    ofNumeral cs = float (Decimal.ofNumeral cs).toFloat := if_pos h

theorem ofNumeral_of_whole {cs : List Char} (hcs : ∀ c ∈ cs, c.isDigit = true) :
    ofNumeral cs =
      if Decimal.placeValue cs ≤ 2 ^ 63 - 1 then int (Decimal.placeValue cs)
      else float (Decimal.ofNumeral cs).toFloat := by
  have hpoint : '.' ∉ cs := fun h => Decimal.ne_point_of_isDigit (hcs _ h) rfl
  rw [ofNumeral, if_neg hpoint, Decimal.ofNumeral_whole hcs, Decimal.natOfDigits_eq]
  rfl

theorem read_eq_ofNumeral {cs : List Char} {q : ℚ} (h : Decimal.Writes cs q)
    (pointed wide : Float) : read pointed wide cs = ofNumeral cs := by
  unfold read
  rw [h.readFloat?_eq, Option.getD_some, Option.getD_some]
  cases h with
  | pointed =>
    have hpoint {ds es : List Char} : '.' ∈ ds ++ '.' :: es := by simp
    rw [if_pos hpoint, ofNumeral_of_point hpoint]
  | whole hne hds =>
    have hpoint : '.' ∉ cs := fun h => Decimal.ne_point_of_isDigit (hds _ h) rfl
    have hread := Decimal.map_int64? hne hds
    rw [if_neg hpoint, ofNumeral_of_whole hds]
    split at hread
    · next hfits =>
      obtain ⟨n, hn, hvalue⟩ := Option.map_eq_some_iff.1 hread
      rw [hn, if_pos hfits, ← hvalue]
    · next hover => rw [Option.map_eq_none_iff.1 hread, if_neg hover]

end Literal

theorem Lexeme.IsLexeme.exists_writes {w : List Char} (h : IsLexeme w)
    (hw : w.head?.any Char.isDigit = true) : ∃ q, Decimal.Writes w q := by
  cases h with
  | digits hne hds => exact ⟨_, .whole hne hds⟩
  | decimal hne hds hes => exact ⟨_, .pointed hne hds hes⟩
  | word hc => exact nomatch hw.symm.trans (Text.isDigit_of_isAlphabetic hc)
  | symbol hsymbol =>
    obtain ⟨c, cs, rfl, hc, -⟩ := exists_cons_of_mem_symbols hsymbol
    exact nomatch hw.symm.trans hc

theorem exists_writes_of_mem_lex {source text : String} {t : Token}
    (h : t ∈ (lex source text).tokens) (hkind : t.kind = .number) :
    (∃ q, Decimal.Writes t.text.toList q) ∧
      t.literal = some (Literal.ofNumeral t.text.toList) := by
  rcases Token.classified_of_mem_lex h with ⟨-, hother, -⟩ | ⟨hlexeme, hclassified⟩
  · exact nomatch hkind.symm.trans hother
  · rw [hkind] at hclassified
    generalize t.text.toList = w, t.literal = literal at hlexeme hclassified
    cases hclassified with
    | number hc => exact ⟨hlexeme.exists_writes hc, rfl⟩
    | symbol hsymbol =>
      have hall : ∀ entry ∈ TokenKind.symbols, entry.2 ≠ .number := by decide
      exact absurd rfl (hall _ hsymbol)

theorem Literal.isSome_number?_ofNumeral (text : List Char) :
    (ofNumeral text).number?.isSome = true := by
  unfold ofNumeral
  split
  · rfl
  · dsimp only
    split <;> rfl

theorem isSome_number?_of_mem_lex {source text : String} {t : Token}
    (h : t ∈ (lex source text).tokens) (hkind : t.kind = .number) : t.number?.isSome = true := by
  rw [Token.number?, (exists_writes_of_mem_lex h hkind).2]
  exact Literal.isSome_number?_ofNumeral _

/-- Number literals are exact. A numeral without a point is the whole number that its digits stand
for if that is at most the largest one of 64 bits, and a float if it is larger or the numeral has a
point; the float is the one for the exact value of all digits. Read by words of 64 bits and by
floats a numeral is the same, whatever these would fall back on, and it always has a number. -/
theorem number_literals_exact (source text : String) :
    ∀ t ∈ (lex source text).tokens, t.kind = .number →
      let cs := t.text.toList
      ∃ d : Decimal, Decimal.Writes cs d.toRat ∧ Decimal.readFloat? t.text = some d.toFloat ∧
        ('.' ∉ cs → Decimal.placeValue cs ≤ 2 ^ 63 - 1 →
          t.literal = some (.int (Decimal.placeValue cs))) ∧
        ('.' ∉ cs → 2 ^ 63 - 1 < Decimal.placeValue cs → t.literal = some (.float d.toFloat)) ∧
        ('.' ∈ cs → t.literal = some (.float d.toFloat)) ∧
        (∀ pointed wide, t.literal = some (Literal.read pointed wide cs)) ∧
        ∃ x, t.number? = some x := by
  intro t ht hkind cs
  obtain ⟨⟨q, hwrites⟩, hliteral⟩ := exists_writes_of_mem_lex ht hkind
  have hread : Decimal.readFloat? t.text = some (Decimal.ofNumeral cs).toFloat := by
    have hfloat := hwrites.readFloat?_eq
    rwa [String.ofList_toList] at hfloat
  have hdigits (hpoint : '.' ∉ cs) : ∀ c ∈ cs, c.isDigit = true := fun c hc =>
    (hwrites.digit_or_point hc).resolve_right fun heq => hpoint (heq ▸ hc)
  refine ⟨Decimal.ofNumeral cs, hwrites.toRat_eq.symm ▸ hwrites, hread, ?_, ?_, ?_, ?_, ?_⟩
  · intro hpoint hfits
    rw [hliteral, Literal.ofNumeral_of_whole (hdigits hpoint), if_pos hfits]
  · intro hpoint hover
    rw [hliteral, Literal.ofNumeral_of_whole (hdigits hpoint), if_neg (Nat.not_le.2 hover)]
  · intro hpoint
    rw [hliteral, Literal.ofNumeral_of_point hpoint]
  · intro pointed wide
    rw [hliteral, Literal.read_eq_ofNumeral hwrites]
  · exact Option.isSome_iff_exists.1 (isSome_number?_of_mem_lex ht hkind)

theorem mem_lex_of_isWord {w : List Char} (hw : Lexeme.IsWord w) (source : String) :
    Token.ofText w (.along (.start source) w) ∈ (lex source (String.ofList w)).tokens := by
  rw [lex, String.toList_ofList, hw.pieces_self]
  exact List.mem_cons_self

theorem number_literals_at_bound :
    let numeral (text : String) : Token := .ofText text.toList (.along (.start "s") text.toList)
    let bound := numeral "0009223372036854775807"
    let larger := numeral "9223372036854775808"
    let pointed := numeral "7."
    (bound ∈ (lex "s" "0009223372036854775807").tokens ∧ bound.kind = .number ∧
      bound.literal = some (.int 9223372036854775807)) ∧
    (larger ∈ (lex "s" "9223372036854775808").tokens ∧ larger.kind = .number ∧
      ∃ d : Decimal, Decimal.Writes larger.text.toList d.toRat ∧
        larger.literal = some (.float d.toFloat)) ∧
    pointed ∈ (lex "s" "7.").tokens ∧ pointed.kind = .number ∧
      ∃ d : Decimal, Decimal.Writes pointed.text.toList d.toRat ∧
        pointed.literal = some (.float d.toFloat) := by
  intro numeral bound larger pointed
  have hbound : bound ∈ (lex "s" "0009223372036854775807").tokens :=
    mem_lex_of_isWord ⟨by decide, by decide⟩ "s"
  have hlarger : larger ∈ (lex "s" "9223372036854775808").tokens :=
    mem_lex_of_isWord ⟨by decide, by decide⟩ "s"
  have hpointed : pointed ∈ (lex "s" "7.").tokens := mem_lex_of_isWord ⟨by decide, by decide⟩ "s"
  have hvalue : Decimal.placeValue "0009223372036854775807".toList = 9223372036854775807 := by
    decide +kernel
  have hover : Decimal.placeValue "9223372036854775808".toList = 9223372036854775808 := by
    decide +kernel
  refine ⟨⟨hbound, rfl, ?_⟩, ⟨hlarger, rfl, ?_⟩, hpointed, rfl, ?_⟩
  · obtain ⟨d, -, -, hint, -⟩ := number_literals_exact "s" _ bound hbound rfl
    have hliteral := hint (by decide) (by decide +kernel)
    rwa [show bound.text.toList = "0009223372036854775807".toList from rfl, hvalue] at hliteral
  · obtain ⟨d, hwrites, -, -, hfloat, -⟩ := number_literals_exact "s" _ larger hlarger rfl
    exact ⟨d, hwrites, hfloat (by decide) (by decide +kernel)⟩
  · obtain ⟨d, hwrites, -, -, -, hfloat, -⟩ := number_literals_exact "s" _ pointed hpointed rfl
    exact ⟨d, hwrites, hfloat (by decide)⟩

end Scriptlet
