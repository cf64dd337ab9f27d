import CondLang.Token
import Mathlib.Algebra.BigOperators.Group.List.Basic
import Mathlib.Algebra.Ring.Int.Defs
import Mathlib.Data.Nat.Find
import Mathlib.Data.Set.Image

/-!
# Parentheses among tokens

`Token.level` counts how many parentheses are open in front of a token.  Two parentheses match if
those between them are balanced (`Token.Matching`), and of the pairs that enclose a token one is the
innermost (`Token.exists_innermost`): pairs do not cross.

A pair that encloses a token does not reach beyond balanced tokens around it.  So the pairs around a
token of a phrase are known from the parts of the phrase (`Token.scope_append_left`,
`Token.scope_append_right`, `Token.scope_group`).
-/

namespace CondLang.Token

/-- What a token adds to the number of open parentheses. -/
def rise (token : Token) : Int :=
  if token.is .leftParen then 1 else if token.is .rightParen then -1 else 0

/-- How many parentheses are open in front of the token at a place. -/
def level (tokens : List Token) (n : Nat) : Int := ((tokens.take n).map rise).sum

/-- None of the parentheses is closed without having been opened, and none is left open. -/
structure Balanced (tokens : List Token) : Prop where
  level_nonneg : ∀ n, 0 ≤ level tokens n
  level_length : level tokens tokens.length = 0

/-- A symbol stands at a place. -/
def At (tokens : List Token) (symbol : Symbol) (n : Nat) : Prop :=
  ∃ span, tokens[n]? = some ⟨.symbol symbol, span⟩

/-- An opening parenthesis at one place and a closing one at another one match: the parentheses
between them are balanced. -/
structure Matching (tokens : List Token) (i j : Nat) : Prop where
  lt : i < j
  opening : At tokens .leftParen i
  closing : At tokens .rightParen j
  balanced : Balanced ((tokens.take j).drop (i + 1))

/-- Matching parentheses enclose a place. -/
structure Encloses (tokens : List Token) (i j n : Nat) : Prop where
  matching : Matching tokens i j
  left : i < n
  right : n < j

/-- Matching parentheses enclose a place, and all others that do so enclose them. -/
def Innermost (tokens : List Token) (i j n : Nat) : Prop :=
  Encloses tokens i j n ∧ ∀ i' j', Encloses tokens i' j' n → i' ≤ i ∧ j ≤ j'

/-- All pairs of matching parentheses that enclose a place. -/
def scope (tokens : List Token) (n : Nat) : Set (Nat × Nat) :=
  {pair | Encloses tokens pair.1 pair.2 n}

variable {tokens xs ys : List Token} {i j i' j' m n : Nat}

/-! ## Levels -/

@[simp] theorem level_zero (tokens : List Token) : level tokens 0 = 0 := by simp [level]

theorem level_append (xs ys : List Token) (n : Nat) :
    level (xs ++ ys) n = level xs n + level ys (n - xs.length) := by
  simp [level, List.take_append]

theorem level_of_length_le (h : tokens.length ≤ n) :
    level tokens n = level tokens tokens.length := by
  rw [level, level, List.take_of_length_le h, List.take_length]

theorem level_succ_of_at {token : Token} (h : tokens[n]? = some token) :
    level tokens (n + 1) = level tokens n + token.rise := by
  simp [level, List.take_add_one, h]

theorem At.level_leftParen (h : At tokens .leftParen n) :
    level tokens (n + 1) = level tokens n + 1 := by
  obtain ⟨span, h⟩ := h
  rw [level_succ_of_at h]
  rfl

theorem At.level_rightParen (h : At tokens .rightParen n) :
    level tokens (n + 1) = level tokens n - 1 := by
  obtain ⟨span, h⟩ := h
  rw [level_succ_of_at h]
  rfl

theorem At.lt_length {symbol : Symbol} (h : At tokens symbol n) : n < tokens.length := by
  obtain ⟨span, h⟩ := h
  exact (List.getElem?_eq_some_iff.1 h).1

/-- The levels between two places are counted from that at the first one. -/
theorem level_between (hij : i ≤ j) (n : Nat) :
    level ((tokens.take j).drop i) n = level tokens (min (i + n) j) - level tokens i := by
  have hsplit : tokens.take (min (i + n) j) =
      tokens.take i ++ ((tokens.take j).drop i).take n := by
    rw [← List.take_take, List.take_add, List.take_take, Nat.min_eq_left hij]
  simp only [level]
  rw [hsplit, List.map_append, List.sum_append, add_sub_cancel_left]

theorem level_length_between (hij : i ≤ j) (hj : j ≤ tokens.length) :
    level ((tokens.take j).drop i) ((tokens.take j).drop i).length =
      level tokens j - level tokens i := by
  have hlength : ((tokens.take j).drop i).length = j - i := by
    rw [List.length_drop, List.length_take, Nat.min_eq_left hj]
  rw [hlength, level_between hij, Nat.add_sub_cancel' hij, Nat.min_self]

/-- Behind an opening parenthesis the level does not fall below that right behind it before the
matching one, in front of which it is the same. -/
theorem matching_iff : Matching tokens i j ↔ i < j ∧ At tokens .leftParen i ∧
    At tokens .rightParen j ∧ level tokens j = level tokens (i + 1) ∧
    ∀ k, i < k → k ≤ j → level tokens (i + 1) ≤ level tokens k := by
  constructor
  · intro h
    have hle : i + 1 ≤ j := h.lt
    have hend := h.balanced.level_length
    rw [level_length_between hle (Nat.le_of_lt h.closing.lt_length)] at hend
    refine ⟨h.lt, h.opening, h.closing, by omega, fun k hik hkj => ?_⟩
    have hk := h.balanced.level_nonneg (k - (i + 1))
    rw [level_between hle, Nat.add_sub_cancel' hik, Nat.min_eq_left hkj] at hk
    omega
  · rintro ⟨hlt, hopening, hclosing, hend, hlevels⟩
    have hle : i + 1 ≤ j := hlt
    refine ⟨hlt, hopening, hclosing, fun n => ?_, ?_⟩
    · have hn := hlevels (min (i + 1 + n) j) (by omega) (by omega)
      rw [level_between hle]
      omega
    · rw [level_length_between hle (Nat.le_of_lt hclosing.lt_length)]
      omega

/-! ## Pairs do not cross -/

theorem Matching.eq_right (h : Matching tokens i j) (h' : Matching tokens i j') : j = j' := by
  have hle : ∀ {j j' : Nat}, Matching tokens i j → Matching tokens i j' → j ≤ j' := by
    intro j j' h h'
    obtain ⟨-, -, -, -, hlevels⟩ := matching_iff.1 h
    obtain ⟨hlt', -, hclosing', hend', -⟩ := matching_iff.1 h'
    -- Behind `j'` the level is lower than anywhere up to `j`.
    by_contra hlt
    have hbehind := hclosing'.level_rightParen
    have hlevel := hlevels (j' + 1) (by omega) (by omega)
    omega
  exact Nat.le_antisymm (hle h h') (hle h' h)

/-- A pair that is opened within another one is closed within it. -/
theorem Matching.nested (h : Matching tokens i j) (h' : Matching tokens i' j') (hi : i' < i)
    (hj : i < j') : j < j' := by
  obtain ⟨hlt, hopening, -, -, hlevels⟩ := matching_iff.1 h
  obtain ⟨-, -, -, hend', hlevels'⟩ := matching_iff.1 h'
  by_contra hle
  have hbehind := hopening.level_leftParen
  have hlevel := hlevels j' hj (by omega)
  have hlevel' := hlevels' i hi (by omega)
  omega

/-- Two pairs that enclose a place lie one within the other. -/
theorem Encloses.nested (h : Encloses tokens i j n) (h' : Encloses tokens i' j' n)
    (hi : i' ≤ i) : j ≤ j' := by
  rcases Nat.eq_or_lt_of_le hi with rfl | hi
  · exact Nat.le_of_eq (h.matching.eq_right h'.matching)
  · exact Nat.le_of_lt (h.matching.nested h'.matching hi (Nat.lt_trans h.left h'.right))

/-- A place that is enclosed has an innermost pair around it. -/
theorem exists_innermost (h : Encloses tokens i' j' n) : ∃ i j, Innermost tokens i j n := by
  -- It is the one that is opened last.
  classical
  obtain ⟨i, ⟨j, hij⟩, hlast⟩ : ∃ i, (∃ j, Encloses tokens i j n) ∧
      ∀ k, (∃ j, Encloses tokens k j n) → k ≤ i := by
    have hfound := Nat.findGreatest_spec (P := fun i => ∃ j, Encloses tokens i j n)
      (Nat.le_of_lt h.left) ⟨j', h⟩
    exact ⟨_, hfound, fun k ⟨j, hk⟩ => Nat.le_findGreatest (Nat.le_of_lt hk.left) ⟨j, hk⟩⟩
  exact ⟨i, j, hij, fun i' j' h' => ⟨hlast i' ⟨j', h'⟩, hij.nested h' (hlast i' ⟨j', h'⟩)⟩⟩

/-- Two places have the same innermost pair around them, or none, exactly when the same pairs
enclose them. -/
theorem forall_innermost_iff :
    (∀ i j, Innermost tokens i j m ↔ Innermost tokens i j n) ↔ scope tokens m = scope tokens n := by
  have hle : ∀ {m n : Nat}, (∀ i j, Innermost tokens i j m ↔ Innermost tokens i j n) →
      scope tokens m ⊆ scope tokens n := by
    rintro m n h ⟨i', j'⟩ hpair
    obtain ⟨i, j, hinner⟩ := exists_innermost hpair
    obtain ⟨hi, hj⟩ := hinner.2 i' j' hpair
    have hother := ((h i j).1 hinner).1
    exact ⟨hpair.matching, Nat.lt_of_le_of_lt hi hother.left, Nat.lt_of_lt_of_le hother.right hj⟩
  constructor
  · exact fun h => (hle h).antisymm (hle fun i j => (h i j).symm)
  · intro h i j
    have hsame : ∀ i j, Encloses tokens i j m ↔ Encloses tokens i j n :=
      fun i j => Set.ext_iff.1 h (i, j)
    simp only [Innermost, hsame]

/-! ## Balanced tokens side by side -/

theorem Balanced.append (hx : Balanced xs) (hy : Balanced ys) : Balanced (xs ++ ys) := by
  refine ⟨fun n => ?_, ?_⟩
  · have hleft := hx.level_nonneg n
    have hright := hy.level_nonneg (n - xs.length)
    rw [level_append]
    omega
  · rw [level_append, level_of_length_le (by simp), hx.level_length, List.length_append,
      Nat.add_sub_cancel_left, hy.level_length, Int.add_zero]

theorem level_left (hn : n ≤ xs.length) : level (xs ++ ys) n = level xs n := by
  rw [level_append, Nat.sub_eq_zero_of_le hn, level_zero, Int.add_zero]

theorem at_part {symbol : Symbol} (before behind : List Token) (hn : n < tokens.length) :
    At (before ++ (tokens ++ behind)) symbol (before.length + n) ↔ At tokens symbol n := by
  rw [At, At, List.getElem?_append_right (Nat.le_add_right _ _), Nat.add_sub_cancel_left,
    List.getElem?_append_left hn]

/-- Parentheses match or not whatever stands around the tokens. -/
theorem matching_part (before behind : List Token) (hj : j < tokens.length) :
    Matching (before ++ (tokens ++ behind)) (before.length + i) (before.length + j) ↔
      Matching tokens i j := by
  have hbetween : ((before ++ (tokens ++ behind)).take (before.length + j)).drop
      (before.length + i + 1) = (tokens.take j).drop (i + 1) := by
    rw [List.take_length_add_append, Nat.add_assoc, List.drop_length_add_append,
      List.take_append_of_le_length (Nat.le_of_lt hj)]
  constructor
  · intro h
    have hlt : i < j := Nat.lt_of_add_lt_add_left h.lt
    exact ⟨hlt, (at_part before behind (hlt.trans hj)).1 h.opening,
      (at_part before behind hj).1 h.closing, hbetween ▸ h.balanced⟩
  · intro h
    exact ⟨Nat.add_lt_add_left h.lt _, (at_part before behind (h.lt.trans hj)).2 h.opening,
      (at_part before behind hj).2 h.closing, hbetween ▸ h.balanced⟩

/-- A pair that is opened in balanced tokens is closed in them. -/
theorem Balanced.lt_length (hx : Balanced xs) (h : Matching (xs ++ ys) i j) (hi : i < xs.length) :
    j < xs.length := by
  obtain ⟨-, hopening, -, -, hlevels⟩ := matching_iff.1 h
  by_contra hle
  have hbehind := hopening.level_leftParen
  have hlevel := hlevels xs.length hi (by omega)
  have hnonneg := hx.level_nonneg i
  rw [level_left (Nat.le_refl _), hx.level_length] at hlevel
  rw [level_left (Nat.le_of_lt hi)] at hbehind
  omega

/-- The pairs around a place in balanced tokens are those among them. -/
theorem scope_append_left (hx : Balanced xs) (hn : n < xs.length) :
    scope (xs ++ ys) n = scope xs n := by
  ext ⟨i, j⟩
  have hpart (hj : j < xs.length) : Matching (xs ++ ys) i j ↔ Matching xs i j := by
    simpa using matching_part [] ys hj
  constructor
  · intro h
    have hj := hx.lt_length h.matching (h.left.trans hn)
    exact ⟨(hpart hj).1 h.matching, h.left, h.right⟩
  · intro h
    exact ⟨(hpart h.matching.closing.lt_length).2 h.matching, h.left, h.right⟩

/-- The pair counted from another place on. -/
def shift (k : Nat) : Nat × Nat → Nat × Nat := Prod.map (k + ·) (k + ·)

theorem shift_injective (k : Nat) : Function.Injective (shift k) :=
  (add_right_injective k).prodMap (add_right_injective k)

/-- The pairs around a place behind balanced tokens are those behind them. -/
theorem scope_append_right (hx : Balanced xs) (n : Nat) :
    scope (xs ++ ys) (xs.length + n) = shift xs.length '' scope ys n := by
  ext ⟨i, j⟩
  have hpart {i j : Nat} (hj : j < ys.length) :
      Matching (xs ++ ys) (xs.length + i) (xs.length + j) ↔ Matching ys i j := by
    simpa using matching_part xs [] hj
  constructor
  · rintro ⟨hmatching, hleft, hright⟩
    have hi : xs.length ≤ i := by
      by_contra hi
      have hj := hx.lt_length hmatching (by omega)
      omega
    obtain ⟨i, rfl⟩ := Nat.exists_eq_add_of_le hi
    obtain ⟨j, rfl⟩ := Nat.exists_eq_add_of_le (hi.trans (Nat.le_of_lt hmatching.lt))
    have hj : j < ys.length := by
      have hlength := hmatching.closing.lt_length
      rw [List.length_append] at hlength
      omega
    exact ⟨(i, j), ⟨(hpart hj).1 hmatching, by omega, by omega⟩, rfl⟩
  · rintro ⟨⟨i, j⟩, h, ⟨⟩⟩
    exact ⟨(hpart h.matching.closing.lt_length).2 h.matching, Nat.add_lt_add_left h.left _,
      Nat.add_lt_add_left h.right _⟩

/-! ## Balanced tokens in parentheses -/

/-- Tokens between parentheses. -/
def group (opening : Span) (tokens : List Token) (closing : Span) : List Token :=
  ⟨.symbol .leftParen, opening⟩ :: (tokens ++ [⟨.symbol .rightParen, closing⟩])

theorem level_group {opening closing : Span} (hn : n ≤ tokens.length) :
    level (group opening tokens closing) (1 + n) = 1 + level tokens n := by
  have hgroup : group opening tokens closing =
      [⟨.symbol .leftParen, opening⟩] ++ (tokens ++ [⟨.symbol .rightParen, closing⟩]) := rfl
  have hopening : level [⟨.symbol .leftParen, opening⟩] 1 = 1 := rfl
  rw [hgroup, level_append, level_of_length_le (Nat.le_add_right 1 n), List.length_singleton,
    hopening, Nat.add_sub_cancel_left, level_left hn]

theorem Balanced.group (h : Balanced tokens) (opening closing : Span) :
    Balanced (group opening tokens closing) := by
  have hlength : (Token.group opening tokens closing).length = 1 + tokens.length + 1 := by
    simp [Token.group, Nat.add_comm]
  have hend : level (Token.group opening tokens closing) (1 + tokens.length + 1) = 0 := by
    have hclosing : At (Token.group opening tokens closing) .rightParen (1 + tokens.length) :=
      ⟨closing, by simp [Token.group, Nat.add_comm 1]⟩
    rw [hclosing.level_rightParen, level_group (Nat.le_refl _), h.level_length]
    rfl
  refine ⟨fun n => ?_, by rw [hlength, hend]⟩
  rcases n with _ | n
  · rw [level_zero]
  · rcases Nat.lt_or_ge tokens.length n with hlt | hle
    · rw [level_of_length_le (by omega), hlength, hend]
    · have hnonneg := h.level_nonneg n
      rw [Nat.add_comm, level_group hle]
      omega

/-- The pair of parentheses around balanced tokens matches. -/
theorem matching_group (h : Balanced tokens) (opening closing : Span) :
    Matching (group opening tokens closing) 0 (1 + tokens.length) := by
  have hbetween : ((group opening tokens closing).take (1 + tokens.length)).drop 1 = tokens := by
    simp [group, Nat.add_comm 1]
  exact ⟨by omega, ⟨opening, rfl⟩, ⟨closing, by simp [group, Nat.add_comm 1]⟩, hbetween.symm ▸ h⟩

/-- The pairs around a place between parentheses are these and the ones that are between them. -/
theorem scope_group (h : Balanced tokens) (opening closing : Span) (hn : n < tokens.length) :
    scope (group opening tokens closing) (1 + n) =
      insert (0, 1 + tokens.length) (shift 1 '' scope tokens n) := by
  have hpart {i j : Nat} (hj : j < tokens.length) :
      Matching (group opening tokens closing) (1 + i) (1 + j) ↔ Matching tokens i j :=
    matching_part [⟨.symbol .leftParen, opening⟩] [⟨.symbol .rightParen, closing⟩] hj
  have hlength : (group opening tokens closing).length = 1 + tokens.length + 1 := by
    simp [group, Nat.add_comm]
  ext ⟨i, j⟩
  constructor
  · rintro ⟨hmatching, hleft, hright⟩
    obtain ⟨j, rfl⟩ : ∃ k, j = 1 + k := Nat.exists_eq_add_of_le (by omega)
    obtain ⟨-, hopening, hclosing, hend, hlevels⟩ := matching_iff.1 hmatching
    have hbehind := hclosing.lt_length
    rcases i with _ | i
    · -- The level is zero again only behind the whole group.
      rcases Nat.lt_or_ge j tokens.length with hlt | hle
      · have hdown := hclosing.level_rightParen
        have hnonneg := h.level_nonneg (j + 1)
        rw [Nat.add_assoc, level_group (by omega), level_group (Nat.le_of_lt hlt)] at hdown
        rw [level_group (Nat.le_of_lt hlt), Nat.zero_add, ← Nat.add_zero 1,
          level_group (Nat.zero_le _), level_zero] at hend
        omega
      · exact .inl (by rw [show j = tokens.length by omega])
    · rw [Nat.add_comm i 1] at *
      rcases Nat.lt_or_ge j tokens.length with hlt | hle
      · exact .inr ⟨(i, j), ⟨(hpart hlt).1 hmatching, by omega, by omega⟩, rfl⟩
      · have hup := hopening.level_leftParen
        have hlevel := hlevels (1 + tokens.length) (by omega) (by omega)
        have hnonneg := h.level_nonneg i
        rw [level_group (by omega)] at hup
        rw [level_group (Nat.le_refl _), h.level_length] at hlevel
        omega
  · rintro (⟨⟨⟩⟩ | ⟨⟨i, j⟩, hij, ⟨⟩⟩)
    · exact ⟨matching_group h opening closing, by omega, by omega⟩
    · exact ⟨(hpart hij.matching.closing.lt_length).2 hij.matching,
        Nat.add_lt_add_left hij.left 1, Nat.add_lt_add_left hij.right 1⟩

end CondLang.Token
