import Mathlib.Data.List.TakeWhile
import Scriptlet.Proofs.Syntax.Consumption

/-! A reading as the walk of a cursor along the tokens. The cursor stands in front of a token, only
ever moves on by one, and stays where the input ends, so whatever it asks for is there. What a rule
takes is the number of moves that it makes, and a whole program takes all tokens up to the end. -/

namespace Scriptlet

namespace Tokens

def sealed (ts : List Token) : List Token :=
  if ts.getLast?.map Token.kind = some .endOfInput then ts else ts ++ [final ts]

theorem getLast?_sealed (ts : List Token) :
    (sealed ts).getLast? = some (final ts) := by
  unfold sealed
  split
  · next h =>
    obtain ⟨last, hlast, hkind⟩ := Option.map_eq_some_iff.1 h
    simp only [final, hlast, hkind, if_true]
  · exact List.getLast?_concat

theorem exists_sealed_eq (ts : List Token) : ∃ tail, sealed ts = proper ts ++ stop ts :: tail := by
  have hsplit := List.takeWhile_append_dropWhile (p := isProper) (l := ts)
  rcases hrest : ts.dropWhile isProper with _ | ⟨mark, tail⟩
  · have hstop : stop ts = final ts := by rw [stop, hrest, List.headD_nil]
    have hproper : proper ts = ts := by rwa [hrest, List.append_nil] at hsplit
    have hopen : ts.getLast?.map Token.kind ≠ some .endOfInput := by
      intro h
      obtain ⟨last, hlast, hkind⟩ := Option.map_eq_some_iff.1 h
      have hmem : last ∈ ts.takeWhile isProper := by
        rw [← proper, hproper]
        exact List.mem_of_getLast? hlast
      have hlastProper : isProper last = true := List.mem_takeWhile_imp hmem
      simp [isProper, hkind] at hlastProper
    refine ⟨[], ?_⟩
    rw [sealed, if_neg hopen, hstop, hproper]
  · have hstop : stop ts = mark := by rw [stop, hrest, List.headD_cons]
    have hts : ts = proper ts ++ mark :: tail := by rw [proper, ← hrest, hsplit]
    unfold sealed
    rw [hstop]
    split
    · exact ⟨tail, hts⟩
    · refine ⟨tail ++ [final ts], ?_⟩
      rw [← List.cons_append, ← List.append_assoc, ← hts]

theorem getElem?_sealed (ts : List Token) (i : Nat) :
    (sealed ts)[min i ((sealed ts).length - 1)]? = some (peekAt ts i) := by
  unfold sealed peekAt
  split
  · next h =>
    obtain ⟨last, hlast, hkind⟩ := Option.map_eq_some_iff.1 h
    have hfinal : final ts = last := by simp only [final, hlast, hkind, if_true]
    have hpos : 0 < ts.length := List.length_pos_of_mem (List.mem_of_getLast? hlast)
    rw [List.getLast?_eq_getElem?] at hlast
    by_cases hi : i < ts.length
    · rw [Nat.min_eq_left (by omega), List.getElem?_eq_getElem hi, Option.getD_some]
    · rw [Nat.min_eq_right (by omega), hlast, List.getElem?_eq_none (by omega), Option.getD_none,
        hfinal]
  · have hlength : (ts ++ [final ts]).length - 1 = ts.length := by simp
    rw [hlength]
    by_cases hi : i < ts.length
    · rw [Nat.min_eq_left (by omega), List.getElem?_append_left hi, List.getElem?_eq_getElem hi,
        Option.getD_some]
    · rw [Nat.min_eq_right (by omega), List.getElem?_concat_length,
        List.getElem?_eq_none (by omega), Option.getD_none]

theorem getElem?_sealed_of_le {ts : List Token} {i : Nat} (hi : i ≤ (proper ts).length) :
    (sealed ts)[i]? = some (Grammar.lookahead (stop ts) ((proper ts).drop i)) := by
  obtain ⟨tail, htail⟩ := exists_sealed_eq ts
  rw [htail]
  rcases Nat.lt_or_eq_of_le hi with hlt | rfl
  · rw [List.getElem?_append_left hlt, List.drop_eq_getElem_cons hlt, Grammar.lookahead_cons,
      List.getElem?_eq_getElem hlt]
  · rw [List.getElem?_append_right (Nat.le_refl _), Nat.sub_self, List.drop_length,
      Grammar.lookahead_nil]
    rfl

theorem proper_drop_sealed {ts : List Token} {i : Nat} (hi : i ≤ (proper ts).length) :
    proper ((sealed ts).drop i) = (proper ts).drop i := by
  obtain ⟨tail, htail⟩ := exists_sealed_eq ts
  have hmark : isProper (stop ts) = false := by simp [isProper, kind_stop]
  have hproper : ∀ t ∈ (proper ts).drop i, isProper t = true := fun t ht =>
    List.mem_takeWhile_imp (List.mem_of_mem_drop ht)
  rw [htail, List.drop_append_of_le_length hi, proper, List.takeWhile_append_of_pos hproper,
    List.takeWhile_cons_of_neg (by simp [hmark]), List.append_nil]

theorem kind_lookahead_eq_iff {ts : List Token} {i : Nat} (hi : i ≤ (proper ts).length) :
    (Grammar.lookahead (stop ts) ((proper ts).drop i)).kind = .endOfInput ↔
      i = (proper ts).length := by
  rcases Nat.lt_or_eq_of_le hi with hlt | rfl
  · have hproper : isProper (proper ts)[i] = true :=
      List.mem_takeWhile_imp (List.getElem_mem hlt)
    rw [List.drop_eq_getElem_cons hlt, Grammar.lookahead_cons]
    refine iff_of_false ?_ (Nat.ne_of_lt hlt)
    simpa [isProper] using hproper
  · rw [List.drop_length, Grammar.lookahead_nil]
    exact iff_of_true (kind_stop ts) rfl

end Tokens

inductive Rule
  | expression
  | tier (t : Tier)
  | chain (t : Tier) (left : Node)
  | demand (e : Expectation)
  | statement
  | statements (inBlock : Bool)

def Rule.used (stop : Token) : Rule → List Token → Nat
  | expression, ts => (Grammar.expression stop ts).used
  | tier t, ts => (Grammar.tier stop t ts).used
  | chain t left, ts => (Grammar.chain stop t left ts).used
  | demand e, ts => (Grammar.demand stop e ts).used
  | statement, ts => (Grammar.statement stop ts).used
  | statements inBlock, ts => (Grammar.statements stop inBlock ts).used

theorem Rule.used_le {stop : Token} (hstop : stop.kind = .endOfInput) (rule : Rule)
    (ts : List Token) : rule.used stop ts ≤ ts.length := by
  have hts := Grammar.readable hstop ts
  cases rule with
  | expression =>
    obtain ⟨_, _, _, h⟩ := hts.expression
    exact (h.agrees hstop).leaves.le
  | tier t =>
    obtain ⟨_, _, _, h⟩ := hts.tier t
    exact (h.agrees hstop).leaves.le
  | chain t left =>
    obtain ⟨_, _, _, h⟩ := hts.chain t left
    exact (h.agrees hstop).leaves.le
  | demand e =>
    obtain ⟨_, _, _, h⟩ := Grammar.exists_takes hstop e ts
    exact h.gives.leaves.le
  | statement =>
    obtain ⟨_, _, _, h⟩ := hts.statement
    exact (h.agrees hstop).leaves.le
  | statements inBlock =>
    obtain ⟨_, _, _, h⟩ := hts.statements inBlock
    exact (h.agrees hstop).leaves.le

structure Cursor where
  tokens : List Token
  current : Nat

namespace Cursor

def start (ts : List Token) : Cursor := ⟨Tokens.sealed ts, 0⟩

def peek? (c : Cursor) (offset : Nat) : Option Token :=
  if c.tokens.isEmpty then none else c.tokens[min (c.current + offset) (c.tokens.length - 1)]?

def previous? (c : Cursor) : Option Token := c.tokens[c.current - 1]?

def isAtEnd (c : Cursor) : Bool :=
  c.tokens.length ≤ c.current || (c.peek? 0).any (·.kind = .endOfInput)

def advance (c : Cursor) : Cursor := if c.isAtEnd then c else { c with current := c.current + 1 }

def forward : Nat → Cursor → Cursor
  | 0, c => c
  | k + 1, c => forward k c.advance

def ahead (c : Cursor) : List Token := Tokens.proper (c.tokens.drop c.current)

def past (stop : Token) (rule : Rule) (c : Cursor) : Cursor := c.forward (rule.used stop c.ahead)

/-- The cursor behind a statement. One that takes nothing costs a token all the same. -/
def pastStatement (stop : Token) (c : Cursor) : Cursor :=
  let after := c.past stop .statement
  if after.current = c.current then after.advance else after

inductive Reachable (ts : List Token) : Cursor → Prop
  | start : Reachable ts (.start ts)
  | advance {c : Cursor} (h : Reachable ts c) : Reachable ts c.advance

def behind (ts : List Token) (i : Nat) : Cursor := ⟨Tokens.sealed ts, i⟩

section
variable {ts : List Token} {i : Nat}

theorem peek?_behind (ts : List Token) (i offset : Nat) :
    (behind ts i).peek? offset = some (Tokens.peekAt ts (i + offset)) := by
  obtain ⟨tail, htail⟩ := Tokens.exists_sealed_eq ts
  have hne : (Tokens.sealed ts).isEmpty = false := by simp [htail]
  rw [peek?, if_neg (by simpa [behind] using hne)]
  exact Tokens.getElem?_sealed ts (i + offset)

theorem lt_length_sealed (hi : i ≤ (Tokens.proper ts).length) : i < (Tokens.sealed ts).length := by
  obtain ⟨tail, htail⟩ := Tokens.exists_sealed_eq ts
  rw [htail, List.length_append, List.length_cons]
  omega

theorem peek?_zero_behind (hi : i ≤ (Tokens.proper ts).length) :
    (behind ts i).peek? 0 =
      some (Grammar.lookahead (Tokens.stop ts) ((Tokens.proper ts).drop i)) := by
  have hlt := lt_length_sealed hi
  rw [peek?_behind, ← Tokens.getElem?_sealed, Nat.add_zero, Nat.min_eq_left (by omega)]
  exact Tokens.getElem?_sealed_of_le hi

theorem ahead_behind (hi : i ≤ (Tokens.proper ts).length) :
    (behind ts i).ahead = (Tokens.proper ts).drop i := Tokens.proper_drop_sealed hi

theorem isAtEnd_behind (hi : i ≤ (Tokens.proper ts).length) :
    (behind ts i).isAtEnd = true ↔ i = (Tokens.proper ts).length := by
  have hlt : ¬ (behind ts i).tokens.length ≤ (behind ts i).current :=
    Nat.not_le.2 (lt_length_sealed hi)
  rw [isAtEnd, peek?_zero_behind hi, decide_eq_false hlt, Bool.false_or, Option.any_some,
    decide_eq_true_iff]
  exact Tokens.kind_lookahead_eq_iff hi

theorem advance_behind (hi : i < (Tokens.proper ts).length) :
    (behind ts i).advance = behind ts (i + 1) := by
  have hend : ¬ (behind ts i).isAtEnd = true := fun h =>
    Nat.ne_of_lt hi ((isAtEnd_behind (Nat.le_of_lt hi)).1 h)
  rw [advance, if_neg hend]
  rfl

theorem forward_behind {k : Nat} (hk : i + k ≤ (Tokens.proper ts).length) :
    (behind ts i).forward k = behind ts (i + k) := by
  induction k generalizing i with
  | zero => rfl
  | succ k ih =>
    have hnext : i + 1 + k = i + (k + 1) := by omega
    rw [forward, advance_behind (by omega), ih (by omega), hnext]

theorem reachable_iff {c : Cursor} :
    Reachable ts c ↔ ∃ i, i ≤ (Tokens.proper ts).length ∧ c = behind ts i := by
  constructor
  · intro h
    induction h with
    | start => exact ⟨0, Nat.zero_le _, rfl⟩
    | advance _ ih =>
      obtain ⟨i, hi, rfl⟩ := ih
      rcases Nat.lt_or_eq_of_le hi with hlt | heq
      · exact ⟨i + 1, hlt, advance_behind hlt⟩
      · have hend : (behind ts i).isAtEnd = true := (isAtEnd_behind hi).2 heq
        exact ⟨i, hi, if_pos hend⟩
  · rintro ⟨i, hi, rfl⟩
    induction i with
    | zero => exact .start
    | succ i ih =>
      rw [← advance_behind hi]
      exact .advance (ih (Nat.le_of_succ_le hi))

theorem past_behind (hi : i ≤ (Tokens.proper ts).length) (rule : Rule) :
    i + rule.used (Tokens.stop ts) ((Tokens.proper ts).drop i) ≤ (Tokens.proper ts).length ∧
      (behind ts i).past (Tokens.stop ts) rule =
        behind ts (i + rule.used (Tokens.stop ts) ((Tokens.proper ts).drop i)) := by
  have hused := rule.used_le (Tokens.kind_stop ts) ((Tokens.proper ts).drop i)
  rw [List.length_drop] at hused
  have hle : i + rule.used (Tokens.stop ts) ((Tokens.proper ts).drop i) ≤
      (Tokens.proper ts).length := by omega
  rw [past, ahead_behind hi, forward_behind hle]
  exact ⟨hle, rfl⟩

theorem pastStatement_behind (hi : i < (Tokens.proper ts).length) :
    (behind ts i).pastStatement (Tokens.stop ts) = behind ts
      (i + max 1 (Grammar.statement (Tokens.stop ts) ((Tokens.proper ts).drop i)).used) := by
  obtain ⟨hle, hpast⟩ := past_behind (Nat.le_of_lt hi) .statement
  change i + (Grammar.statement (Tokens.stop ts) ((Tokens.proper ts).drop i)).used ≤ _ at hle
  change _ = behind ts
    (i + (Grammar.statement (Tokens.stop ts) ((Tokens.proper ts).drop i)).used) at hpast
  generalize (Grammar.statement (Tokens.stop ts) ((Tokens.proper ts).drop i)).used = used at *
  unfold pastStatement
  dsimp only
  rw [hpast]
  rcases Nat.eq_zero_or_pos used with rfl | hpos
  · exact (if_pos rfl).trans (advance_behind hi)
  · have hmoved : (behind ts (i + used)).current ≠ (behind ts i).current := by
      change i + used ≠ i
      omega
    rw [Nat.max_eq_right hpos]
    exact if_neg hmoved

end

structure InBounds (ts : List Token) (c : Cursor) : Prop where
  tokens_ne_nil : c.tokens ≠ []
  ends : ∃ last, c.tokens.getLast? = some last ∧ last.kind = .endOfInput
  current_lt : c.current < c.tokens.length
  peek?_eq (offset : Nat) : c.peek? offset = some (Tokens.peekAt ts (c.current + offset))
  previous?_isSome : c.previous?.isSome = true

theorem Reachable.inBounds {ts : List Token} {c : Cursor} (h : Reachable ts c) :
    c.InBounds ts := by
  obtain ⟨i, hi, rfl⟩ := reachable_iff.1 h
  have hlt : i < (Tokens.sealed ts).length := lt_length_sealed hi
  refine ⟨List.ne_nil_of_length_pos (Nat.zero_lt_of_lt hlt), ?_, hlt, peek?_behind ts i, ?_⟩
  · exact ⟨Tokens.final ts, Tokens.getLast?_sealed ts, Tokens.kind_final ts⟩
  · have hprevious : i - 1 < (Tokens.sealed ts).length := Nat.lt_of_le_of_lt (Nat.sub_le i 1) hlt
    exact Option.isSome_iff_exists.2 ⟨_, List.getElem?_eq_getElem hprevious⟩

def goesOn (inBlock : Bool) (c : Cursor) : Bool :=
  !c.isAtEnd && !(inBlock && (c.peek? 0).any (·.kind = .rightBrace))

/-- A rule that is read at the cursor takes tokens that are there, and a list of statements goes
on behind each of its statements, farther on than before. -/
structure Progresses (ts : List Token) (c : Cursor) : Prop where
  le_advance : c.current ≤ c.advance.current
  reachable_past (rule : Rule) : Reachable ts (c.past (Tokens.stop ts) rule)
  current_past (rule : Rule) :
    (c.past (Tokens.stop ts) rule).current = c.current + rule.used (Tokens.stop ts) c.ahead
  statements (inBlock : Bool) (h : c.goesOn inBlock = true) :
    Reachable ts (c.pastStatement (Tokens.stop ts)) ∧
      c.current < (c.pastStatement (Tokens.stop ts)).current ∧
      (Grammar.statements (Tokens.stop ts) inBlock c.ahead).value =
        (Grammar.statement (Tokens.stop ts) c.ahead).value ::
          (Grammar.statements (Tokens.stop ts) inBlock
            (c.pastStatement (Tokens.stop ts)).ahead).value

theorem Reachable.progresses {ts : List Token} {c : Cursor} (h : Reachable ts c) :
    c.Progresses ts := by
  obtain ⟨i, hi, rfl⟩ := reachable_iff.1 h
  refine ⟨?_, fun rule => ?_, fun rule => ?_, fun inBlock hgoes => ?_⟩
  · unfold Cursor.advance
    split
    · exact Nat.le_refl _
    · exact Nat.le_succ _
  · obtain ⟨hle, hpast⟩ := past_behind hi rule
    exact reachable_iff.2 ⟨_, hle, hpast⟩
  · rw [(past_behind hi rule).2, ahead_behind hi]
    rfl
  · have hparts := Bool.and_eq_true_iff.1 hgoes
    have hlt : i < (Tokens.proper ts).length := by
      refine Nat.lt_of_le_of_ne hi fun heq => ?_
      rw [(isAtEnd_behind hi).2 heq] at hparts
      exact nomatch hparts.1
    have hopen := hparts.2
    rw [peek?_zero_behind hi, Option.any_some, List.drop_eq_getElem_cons hlt,
      Grammar.lookahead_cons, Bool.not_eq_true'] at hopen
    -- the token after which a statement without tokens goes on is there as well
    have hused := Rule.used_le (Tokens.kind_stop ts) .statement ((Tokens.proper ts).drop i)
    change (Grammar.statement (Tokens.stop ts) ((Tokens.proper ts).drop i)).used ≤ _ at hused
    rw [List.length_drop] at hused
    have hle : i + max 1 (Grammar.statement (Tokens.stop ts) ((Tokens.proper ts).drop i)).used ≤
        (Tokens.proper ts).length := by omega
    rw [pastStatement_behind hlt, ahead_behind hi, ahead_behind hle]
    refine ⟨reachable_iff.2 ⟨_, hle, rfl⟩, ?_, ?_⟩
    · change i < i + max 1 _
      omega
    · rw [← List.drop_drop, List.drop_eq_getElem_cons hlt, Grammar.statements,
        if_neg (Bool.eq_false_iff.1 hopen)]

end Cursor

theorem Tokens.proper_append_stop_cons (ts tail : List Token) :
    proper (proper ts ++ stop ts :: tail) = proper ts ∧
      stop (proper ts ++ stop ts :: tail) = stop ts := by
  have hmark : ¬ isProper (stop ts) = true := by simp [isProper, kind_stop]
  have hproper : ∀ t ∈ proper ts, isProper t = true := fun t ht => List.mem_takeWhile_imp ht
  refine ⟨?_, stop_append hproper (kind_stop ts) tail⟩
  rw [proper, List.takeWhile_append_of_pos hproper, List.takeWhile_cons_of_neg hmark,
    List.append_nil]

/-- Reading a list ends, and stays inside its tokens all the way: in every state the tokens end
with the end of the input and the cursor is at one of them. A program takes exactly the tokens in
front of the first end of the input, has no more statements than that and reports no more than
five defects for each of them, and nothing behind that end matters. -/
theorem parse_in_bounds (ts : List Token) (ds : List Diagnostic) :
    (∀ c, Cursor.Reachable ts c → c.InBounds ts ∧ c.Progresses ts) ∧
      (ts ≠ [] →
        let reading := Grammar.statements (Tokens.stop ts) false (Cursor.start ts).ahead
        parse ts ds = ⟨reading.value, ds ++ reading.issues⟩ ∧
          ((Cursor.start ts).past (Tokens.stop ts) (.statements false)).current =
            (Tokens.proper ts).length ∧
          reading.value.length ≤ (Tokens.proper ts).length ∧
          reading.issues.length ≤ 5 * (Tokens.proper ts).length ∧
          ∀ tail, parse (Tokens.proper ts ++ Tokens.stop ts :: tail) ds = parse ts ds) := by
  refine ⟨fun c hc => ⟨hc.inBounds, hc.progresses⟩, fun hts => ?_⟩
  have hstop := Tokens.kind_stop ts
  have hahead : (Cursor.start ts).ahead = Tokens.proper ts := Cursor.ahead_behind (Nat.zero_le _)
  rw [hahead]
  have hreads := reads_proper ts
  have hend := hreads.rest_eq_nil
  obtain ⟨hissues, hcount⟩ := hreads.affordable
  have hused : (Rule.statements false).used (Tokens.stop ts) (Tokens.proper ts) =
      (Tokens.proper ts).length :=
    Nat.le_antisymm (Rule.used_le hstop _ _) (List.drop_eq_nil_iff.1 hend)
  refine ⟨parse_eq hts ds, ?_, Nat.le_trans (Nat.le_add_right _ _) hcount,
    Nat.le_trans (Nat.le_add_right _ _) hissues, fun tail => ?_⟩
  · have hzero : 0 ≤ (Tokens.proper ts).length := Nat.zero_le _
    have hpast := (Cursor.past_behind hzero (.statements false)).2
    rw [Nat.zero_add, List.drop_zero, hused] at hpast
    exact congrArg Cursor.current hpast
  · obtain ⟨hproper, hmark⟩ := Tokens.proper_append_stop_cons ts tail
    rw [parse_eq hts, parse_eq (by simp), hproper, hmark]

theorem parse_lone_if :
    let word : Token := ⟨.keyword, "if", some (.keyword .ifWord), .nowhere⟩
    let start := Cursor.start [word]
    Cursor.Reachable [word] start ∧ start.InBounds [word] ∧ start.goesOn false = true ∧
      start.current < (start.pastStatement (Tokens.stop [word])).current ∧
      [word] ≠ [] ∧ (start.past (Tokens.stop [word]) (.statements false)).current = 1 ∧
      (parse [word] []).program.length ≤ 1 ∧ (parse [word] []).diagnostics.length ≤ 5 ∧
      (parse [word] []).diagnostics.length = 5 := by
  intro word start
  obtain ⟨hstates, hwhole⟩ := parse_in_bounds [word] []
  have hreachable : Cursor.Reachable [word] start := .start
  obtain ⟨hbounds, hprogress⟩ := hstates start hreachable
  have hgoes : start.goesOn false = true := by cbv
  obtain ⟨hparse, hcurrent, hcount, hissues, -⟩ := hwhole (List.cons_ne_nil _ _)
  have hlength : (parse [word] []).diagnostics.length = 5 := by cbv
  refine ⟨hreachable, hbounds, hgoes, (hprogress.statements false hgoes).2.1,
    List.cons_ne_nil _ _, hcurrent, ?_, ?_, hlength⟩
  · rw [hparse]
    exact hcount
  · rw [hparse]
    exact hissues

end Scriptlet
