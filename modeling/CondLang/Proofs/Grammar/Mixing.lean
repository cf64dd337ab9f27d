import CondLang.Proofs.Grammar
import CondLang.Proofs.Grammar.Parentheses

/-!
# Connectives in parentheses

The connectives of a phrase that stand outside all its parentheses are those that its tree mentions
outside its groups (`Derivation.exposes_tree`), and some parentheses of a phrase mix the two exactly
when some group of its tree does (`Derivation.mixesWithin_tree`).

Both are told for a phrase from its parts, and in the same way for tokens and for trees: side by
side, what is exposed is what either part exposes; in parentheses, nothing is exposed, and what was
exposed before is mixed within if it was both connectives.
-/

namespace CondLang

namespace Token

variable {tokens xs ys : List Token} {op : Connective} {pairs : Set (Nat × Nat)}

/-- A connective stands among tokens, with certain pairs of parentheses around it. -/
def Stands (tokens : List Token) (op : Connective) (pairs : Set (Nat × Nat)) : Prop :=
  ∃ n, At tokens (.connective op) n ∧ scope tokens n = pairs

/-- A connective stands among tokens outside all parentheses. -/
def Exposes (tokens : List Token) (op : Connective) : Prop := Stands tokens op ∅

/-- Both connectives stand among tokens with the same parentheses around them. -/
def MixesWithin (tokens : List Token) : Prop :=
  ∃ pairs : Set (Nat × Nat), pairs.Nonempty ∧ Stands tokens .and pairs ∧ Stands tokens .or pairs

theorem exists_stands_iff :
    (∃ pairs, Stands tokens .and pairs ∧ Stands tokens .or pairs) ↔
      MixesWithin tokens ∨ Exposes tokens .and ∧ Exposes tokens .or := by
  constructor
  · rintro ⟨pairs, h⟩
    rcases pairs.eq_empty_or_nonempty with rfl | hpairs
    · exact .inr h
    · exact .inl ⟨pairs, hpairs, h⟩
  · rintro (⟨pairs, -, h⟩ | h)
    · exact ⟨pairs, h⟩
    · exact ⟨∅, h⟩

/-- The pairs around a connective lie among the tokens. -/
theorem Stands.lt_length (h : Stands tokens op pairs) :
    ∀ pair ∈ pairs, pair.1 < pair.2 ∧ pair.2 < tokens.length := by
  obtain ⟨n, -, rfl⟩ := h
  exact fun _ hpair => ⟨hpair.matching.lt, hpair.matching.closing.lt_length⟩

/-- Nothing stands among tokens without connectives. -/
theorem not_stands (h : ∀ token ∈ tokens, token.lexeme ≠ .symbol (.connective op)) :
    ¬ Stands tokens op pairs := by
  rintro ⟨n, ⟨span, hat⟩, -⟩
  exact h _ (List.mem_of_getElem? hat) rfl

theorem stands_append (hx : Balanced xs) : Stands (xs ++ ys) op pairs ↔
    Stands xs op pairs ∨ ∃ pairs', Stands ys op pairs' ∧ shift xs.length '' pairs' = pairs := by
  constructor
  · rintro ⟨n, ⟨span, hat⟩, rfl⟩
    rcases Nat.lt_or_ge n xs.length with hn | hn
    · rw [List.getElem?_append_left hn] at hat
      exact .inl ⟨n, ⟨span, hat⟩, (scope_append_left hx hn).symm⟩
    · obtain ⟨n, rfl⟩ := Nat.exists_eq_add_of_le hn
      rw [List.getElem?_append_right hn, Nat.add_sub_cancel_left] at hat
      exact .inr ⟨_, ⟨n, ⟨span, hat⟩, rfl⟩, (scope_append_right hx n).symm⟩
  · rintro (⟨n, hat, rfl⟩ | ⟨_, ⟨n, ⟨span, hat⟩, rfl⟩, rfl⟩)
    · obtain ⟨span, hat'⟩ := id hat
      exact ⟨n, ⟨span, by rwa [List.getElem?_append_left hat.lt_length]⟩,
        scope_append_left hx hat.lt_length⟩
    · refine ⟨xs.length + n, ⟨span, ?_⟩, scope_append_right hx n⟩
      rwa [List.getElem?_append_right (Nat.le_add_right _ _), Nat.add_sub_cancel_left]

theorem exposes_append (hx : Balanced xs) :
    Exposes (xs ++ ys) op ↔ Exposes xs op ∨ Exposes ys op := by
  simp only [Exposes, stands_append hx, Set.image_eq_empty, exists_eq_right]

theorem mixesWithin_append (hx : Balanced xs) :
    MixesWithin (xs ++ ys) ↔ MixesWithin xs ∨ MixesWithin ys := by
  -- A pair of the one side is no pair of the other side, as it is closed before.
  have happart : ∀ {op op' : Connective} {pairs pairs' : Set (Nat × Nat)}, pairs.Nonempty →
      Stands xs op pairs → Stands ys op' pairs' → shift xs.length '' pairs' ≠ pairs := by
    rintro op op' _ pairs' hpairs hleft hright rfl
    obtain ⟨_, pair, hpair, rfl⟩ := hpairs
    obtain ⟨hlt, hlength⟩ := hleft.lt_length _ (Set.mem_image_of_mem _ hpair)
    exact absurd hlength (Nat.not_lt.2 (Nat.le_add_right _ _))
  constructor
  · rintro ⟨pairs, hpairs, hand, hor⟩
    rcases (stands_append hx).1 hand with hand | ⟨pairs', hand, heq⟩ <;>
      rcases (stands_append hx).1 hor with hor | ⟨pairs'', hor, heq'⟩
    · exact .inl ⟨pairs, hpairs, hand, hor⟩
    · exact absurd heq' (happart hpairs hand hor)
    · exact absurd heq (happart hpairs hor hand)
    · obtain rfl := (shift_injective xs.length).image_injective (heq.trans heq'.symm)
      exact .inr ⟨pairs', Set.image_nonempty.1 (heq ▸ hpairs), hand, hor⟩
  · rintro (⟨pairs, hpairs, hand, hor⟩ | ⟨pairs, hpairs, hand, hor⟩)
    · exact ⟨pairs, hpairs, (stands_append hx).2 (.inl hand), (stands_append hx).2 (.inl hor)⟩
    · exact ⟨_, hpairs.image _, (stands_append hx).2 (.inr ⟨pairs, hand, rfl⟩),
        (stands_append hx).2 (.inr ⟨pairs, hor, rfl⟩)⟩

theorem stands_group (h : Balanced tokens) (opening closing : Span) :
    Stands (group opening tokens closing) op pairs ↔ ∃ pairs', Stands tokens op pairs' ∧
      insert (0, 1 + tokens.length) (shift 1 '' pairs') = pairs := by
  constructor
  · rintro ⟨_ | n, ⟨span, hat⟩, rfl⟩
    · cases hat
    rcases Nat.lt_or_ge n tokens.length with hn | hn
    · rw [group, List.getElem?_cons_succ, List.getElem?_append_left hn] at hat
      refine ⟨_, ⟨n, ⟨span, hat⟩, rfl⟩, ?_⟩
      rw [Nat.add_comm n 1, scope_group h opening closing hn]
    · rw [group, List.getElem?_cons_succ, List.getElem?_append_right hn] at hat
      cases List.mem_singleton.1 (List.mem_of_getElem? hat)
  · rintro ⟨_, ⟨n, hat, rfl⟩, rfl⟩
    refine ⟨1 + n, ?_, scope_group h opening closing hat.lt_length⟩
    exact (at_part [⟨.symbol .leftParen, opening⟩] [⟨.symbol .rightParen, closing⟩]
      hat.lt_length).2 hat

theorem not_exposes_group (h : Balanced tokens) (opening closing : Span) :
    ¬ Exposes (group opening tokens closing) op := by
  rw [Exposes, stands_group h]
  rintro ⟨pairs, -, heq⟩
  exact (Set.insert_nonempty _ _).ne_empty heq

theorem mixesWithin_group (h : Balanced tokens) (opening closing : Span) :
    MixesWithin (group opening tokens closing) ↔
      MixesWithin tokens ∨ Exposes tokens .and ∧ Exposes tokens .or := by
  rw [← exists_stands_iff]
  -- The pair that is added around all others is none of them.
  have hnew : ∀ pairs : Set (Nat × Nat), (0, 1 + tokens.length) ∉ shift 1 '' pairs := by
    rintro pairs ⟨pair, -, heq⟩
    have hzero : 1 + pair.1 = 0 := congrArg Prod.fst heq
    omega
  constructor
  · rintro ⟨_, -, hand', hor'⟩
    obtain ⟨pairs, hand, rfl⟩ := (stands_group h opening closing).1 hand'
    obtain ⟨pairs', hor, heq⟩ := (stands_group h opening closing).1 hor'
    have himage : shift 1 '' pairs' = shift 1 '' pairs := by
      rw [← Set.insert_sdiff_self_of_notMem (hnew pairs'), heq,
        Set.insert_sdiff_self_of_notMem (hnew pairs)]
    obtain rfl := (shift_injective 1).image_injective himage
    exact ⟨pairs', hand, hor⟩
  · rintro ⟨pairs, hand, hor⟩
    exact ⟨_, Set.insert_nonempty _ _, (stands_group h opening closing).2 ⟨pairs, hand, rfl⟩,
      (stands_group h opening closing).2 ⟨pairs, hor, rfl⟩⟩

end Token

namespace Expr

variable {e left right : Expr} {wanted : Connective}

/-- A connective stands in a tree outside its groups; the tree itself is no group. -/
def Exposes (e : Expr) (wanted : Connective) : Prop :=
  e.grouped = false ∧ e.mentions wanted = true

/-- Some group of a tree mixes the connectives. -/
def MixesWithin (e : Expr) : Prop := ∃ n ∈ e.nodes, n.grouped = true ∧ n.mixes = true

theorem not_exposes_leaf (node : LeafNode) : ¬ (leaf node).Exposes wanted := by
  simp [Exposes, mentions]

theorem not_exposes_call (mark : Mark) (name : String) (arguments : List LeafNode) :
    ¬ (call mark name arguments).Exposes wanted := by
  simp [Exposes, mentions]

theorem exposes_logical (id : Nat) (span : Span) (op : Connective) :
    (logical ⟨id, span, false⟩ op left right).Exposes wanted ↔
      op = wanted ∨ left.Exposes wanted ∨ right.Exposes wanted := by
  simp [Exposes, grouped, mark, mentions, or_assoc]

theorem exposes_comparison (id : Nat) (span : Span) (op : Relation) :
    (comparison ⟨id, span, false⟩ op left right).Exposes wanted ↔
      left.Exposes wanted ∨ right.Exposes wanted := by
  simp [Exposes, grouped, mark, mentions]

theorem exposes_not (id : Nat) (span : Span) :
    (not ⟨id, span, false⟩ e).Exposes wanted ↔ e.Exposes wanted := by
  simp [Exposes, grouped, mark, mentions]

theorem not_mixesWithin_leaf (node : LeafNode) : ¬ (leaf node).MixesWithin := by
  simp [MixesWithin, nodes, mixes, mentions]

theorem not_mixesWithin_call (mark : Mark) (name : String) (arguments : List LeafNode) :
    ¬ (call mark name arguments).MixesWithin := by
  simp [MixesWithin, nodes, mixes, mentions]

theorem mixesWithin_logical (id : Nat) (span : Span) (op : Connective) :
    (logical ⟨id, span, false⟩ op left right).MixesWithin ↔
      left.MixesWithin ∨ right.MixesWithin := by
  simp [MixesWithin, nodes, grouped, mark, or_and_right, exists_or]

theorem mixesWithin_comparison (id : Nat) (span : Span) (op : Relation) :
    (comparison ⟨id, span, false⟩ op left right).MixesWithin ↔
      left.MixesWithin ∨ right.MixesWithin := by
  simp [MixesWithin, nodes, grouped, mark, or_and_right, exists_or]

theorem mixesWithin_not (id : Nat) (span : Span) :
    (not ⟨id, span, false⟩ e).MixesWithin ↔ e.MixesWithin := by
  simp [MixesWithin, nodes, grouped, mark]

theorem not_exposes_group (span : Span) : ¬ (e.group span).Exposes wanted := by
  simp [Exposes, grouped, group]

/-- A tree exposes both connectives exactly when it mixes them and is no group. -/
theorem exposes_both_iff : e.Exposes .and ∧ e.Exposes .or ↔ e.grouped = false ∧ e.mixes = true := by
  rw [Exposes, Exposes, mixes, Bool.and_eq_true]
  tauto

/-- What a tree mixes, parentheses around it mix. -/
theorem mixesWithin_group (span : Span) :
    (e.group span).MixesWithin ↔ e.MixesWithin ∨ e.Exposes .and ∧ e.Exposes .or := by
  obtain ⟨below, hnodes, hgroup⟩ : ∃ below, e.nodes = e :: below ∧
      (e.group span).nodes = e.group span :: below := by
    cases e <;> exact ⟨_, rfl, rfl⟩
  have hgrouped : (e.group span).grouped = true := by simp [group, grouped]
  have hmixes : (e.group span).mixes = e.mixes := by cases e <;> rfl
  rw [exposes_both_iff, MixesWithin, MixesWithin, hgroup, hnodes]
  simp only [List.exists_mem_cons_iff, hgrouped, hmixes, true_and]
  cases e.grouped <;> simp [or_comm]

end Expr

namespace Token

/-! ## Balanced phrases -/

theorem balanced_nil : Balanced [] := ⟨fun n => by simp [level], by simp⟩

theorem balanced_singleton {token : Token} (h : token.rise = 0) : Balanced [token] := by
  refine ⟨fun n => ?_, by simp [level, h]⟩
  cases n <;> simp [level, h]

theorem scope_singleton (token : Token) : scope [token] 0 = ∅ :=
  Set.eq_empty_of_forall_notMem fun _ h => absurd h.left (Nat.not_lt_zero _)

/-- A token that is no parenthesis adds the connective that it is. -/
theorem exposes_cons {token : Token} (h : token.rise = 0) :
    Exposes (token :: ys) op ↔ token.lexeme = .symbol (.connective op) ∨ Exposes ys op := by
  have hsingle : Exposes [token] op ↔ token.lexeme = .symbol (.connective op) := by
    constructor
    · rintro ⟨n, ⟨span, hat⟩, -⟩
      rw [← List.mem_singleton.1 (List.mem_of_getElem? hat)]
    · intro hlexeme
      exact ⟨0, ⟨token.span, by rw [← hlexeme]; rfl⟩, scope_singleton token⟩
  rw [← hsingle]
  exact exposes_append (balanced_singleton h)

theorem mixesWithin_cons {token : Token} (h : token.rise = 0) :
    MixesWithin (token :: ys) ↔ MixesWithin ys := by
  have hsingle : ¬ MixesWithin [token] := by
    rintro ⟨pairs, -, ⟨_, ⟨_, hand⟩, -⟩, ⟨_, ⟨_, hor⟩, -⟩⟩
    have hboth := (List.mem_singleton.1 (List.mem_of_getElem? hand)).trans
      (List.mem_singleton.1 (List.mem_of_getElem? hor)).symm
    cases hboth
  rw [← false_or (MixesWithin ys), ← iff_false_intro hsingle]
  exact mixesWithin_append (balanced_singleton h)

end Token

theorem Token.not_mixesWithin {tokens : List Token}
    (h : ∀ token ∈ tokens, token.lexeme ≠ .symbol (.connective .and)) :
    ¬ Token.MixesWithin tokens :=
  fun ⟨_, _, hand, _⟩ => Token.not_stands h hand

theorem LeafToken.rise_token (t : LeafToken) : t.token.rise = 0 := by
  simp [Token.rise, t.is_symbol]

theorem Arguments.balanced_yield (arguments : Arguments) : Token.Balanced arguments.yield := by
  induction arguments with
  | last argument => exact Token.balanced_singleton argument.rise_token
  | more argument comma others ih =>
    exact (Token.balanced_singleton argument.rise_token).append
      ((Token.balanced_singleton rfl).append ih)

theorem Arguments.lexeme_ne_connective {arguments : Arguments} {op : Connective} :
    ∀ token ∈ arguments.yield, token.lexeme ≠ .symbol (.connective op) := by
  induction arguments with
  | last argument => simpa [yield] using argument.lexeme_ne_symbol _
  | more argument comma others ih => simpa [yield] using ⟨argument.lexeme_ne_symbol _, ih⟩

namespace Derivation

variable {c : Category}

theorem lexeme_call_ne_connective (name : String) (expandable : Bool) (span opening : Span)
    (arguments : Option Arguments) (closing : Span) (op : Connective) :
    ∀ token ∈ (call name expandable span opening arguments closing).yield,
      token.lexeme ≠ .symbol (.connective op) := by
  have harguments : ∀ token ∈ arguments.elim [] Arguments.yield,
      token.lexeme ≠ .symbol (.connective op) := by
    cases arguments with
    | none => exact nofun
    | some a => exact Arguments.lexeme_ne_connective
  simpa [yield, or_imp, forall_and] using harguments

/-- Each parenthesis of a phrase belongs to a group or a call, and so does its counterpart. -/
theorem balanced_yield (d : Derivation c) : Token.Balanced d.yield := by
  have hsymbol : ∀ {s : Symbol} {span : Span}, Token.rise ⟨.symbol s, span⟩ = 0 →
      Token.Balanced [⟨.symbol s, span⟩] := Token.balanced_singleton
  induction d with
  | leaf token => exact Token.balanced_singleton token.rise_token
  | call name expandable span opening arguments closing =>
    have harguments : Token.Balanced (arguments.elim [] Arguments.yield) := by
      cases arguments with
      | none => exact Token.balanced_nil
      | some a => exact a.balanced_yield
    exact (Token.balanced_singleton rfl).append (harguments.group opening closing)
  | group opening inner closing ih => exact ih.group opening closing
  | single only ih => exact ih
  | compared left op sign right ihl ihr => exact ihl.append ((hsymbol rfl).append ihr)
  | plain inner ih => exact ih
  | negated sign inner ih => exact (hsymbol rfl).append ih
  | conjunct inner ih => exact ih
  | disjunct inner ih => exact ih
  | chain first others ihf iho => exact ihf.append iho
  | done => exact Token.balanced_nil
  | more op word next others ihn iho => exact (hsymbol rfl).append (ihn.append iho)

/-- What stands to the left of a phrase has a property, if anything does. -/
def Behind : {c : Category} → c.Left → (Expr → Prop) → Prop
  | .others _, left, P => P left
  | .primary, _, _ | .comparison, _, _ | .unary, _, _ | .operand _, _, _ | .chain _, _, _ => False

/-- The tree of a phrase exposes the connectives that its tokens do, and what the tree to the left
of it does. -/
theorem exposes_tree {wanted : Connective} (d : Derivation c) : ∀ (left : c.Left) (id : Nat),
    (d.tree left id).Exposes wanted ↔
      Behind left (·.Exposes wanted) ∨ Token.Exposes d.yield wanted := by
  induction d with
  | leaf token =>
    intro _ id
    have hsilent : ¬ Token.Exposes [token.token] wanted :=
      Token.not_stands (by simpa using token.lexeme_ne_symbol _)
    exact iff_of_false (Expr.not_exposes_leaf _) (not_or_intro not_false hsilent)
  | call name expandable span opening arguments closing =>
    intro _ id
    have hsilent : ¬ Token.Exposes _ wanted := Token.not_stands
      (lexeme_call_ne_connective name expandable span opening arguments closing wanted)
    exact iff_of_false (Expr.not_exposes_call _ _ _) (not_or_intro not_false hsilent)
  | group opening inner closing ih =>
    intro _ id
    exact iff_of_false (Expr.not_exposes_group _)
      (not_or_intro not_false (Token.not_exposes_group inner.balanced_yield opening closing))
  | single only ih => exact fun _ id => ih () id
  | compared left op sign right ihl ihr =>
    intro _ id
    rw [tree, Expr.exposes_comparison, ihl, ihr, yield, Token.exposes_append left.balanced_yield,
      Token.exposes_cons rfl]
    simp [Behind]
  | plain inner ih => exact fun _ id => ih () id
  | negated sign inner ih =>
    intro _ id
    rw [tree, Expr.exposes_not, ih, yield, Token.exposes_cons rfl]
    simp [Behind]
  | conjunct inner ih => exact fun _ id => ih () id
  | disjunct inner ih => exact fun _ id => ih () id
  | chain first others ihf iho =>
    intro _ id
    rw [tree, iho, yield, Token.exposes_append first.balanced_yield]
    simp only [Behind]
    rw [ihf]
    simp [Behind]
  | done =>
    have hsilent : ¬ Token.Exposes [] wanted := Token.not_stands (List.forall_mem_nil _)
    exact fun left _ => (or_iff_left hsilent).symm
  | more op word next others ihn iho =>
    intro left id
    rw [tree, iho, yield, Token.exposes_cons rfl, Token.exposes_append next.balanced_yield]
    simp only [Behind, Expr.exposes_logical]
    rw [ihn]
    simp [Behind]
    tauto

/-- A group of the tree of a phrase mixes the connectives exactly when parentheses among its tokens
do, or a group of the tree to the left of it. -/
theorem mixesWithin_tree (d : Derivation c) : ∀ (left : c.Left) (id : Nat),
    (d.tree left id).MixesWithin ↔ Behind left Expr.MixesWithin ∨ Token.MixesWithin d.yield := by
  induction d with
  | leaf token =>
    intro _ id
    have hsilent : ¬ Token.MixesWithin [token.token] :=
      Token.not_mixesWithin (by simpa using token.lexeme_ne_symbol _)
    exact iff_of_false (Expr.not_mixesWithin_leaf _) (not_or_intro not_false hsilent)
  | call name expandable span opening arguments closing =>
    intro _ id
    have hsilent := Token.not_mixesWithin
      (lexeme_call_ne_connective name expandable span opening arguments closing .and)
    exact iff_of_false (Expr.not_mixesWithin_call _ _ _) (not_or_intro not_false hsilent)
  | group opening inner closing ih =>
    intro _ id
    have hyield : (group opening inner closing).yield =
        Token.group opening inner.yield closing := rfl
    rw [tree, Expr.mixesWithin_group, ih, inner.exposes_tree, inner.exposes_tree, hyield,
      Token.mixesWithin_group inner.balanced_yield]
    simp [Behind]
  | single only ih => exact fun _ id => ih () id
  | compared left op sign right ihl ihr =>
    intro _ id
    rw [tree, Expr.mixesWithin_comparison, ihl, ihr, yield,
      Token.mixesWithin_append left.balanced_yield, Token.mixesWithin_cons rfl]
    simp [Behind]
  | plain inner ih => exact fun _ id => ih () id
  | negated sign inner ih =>
    intro _ id
    rw [tree, Expr.mixesWithin_not, ih, yield, Token.mixesWithin_cons rfl]
  | conjunct inner ih => exact fun _ id => ih () id
  | disjunct inner ih => exact fun _ id => ih () id
  | chain first others ihf iho =>
    intro _ id
    rw [tree, iho, yield, Token.mixesWithin_append first.balanced_yield]
    simp only [Behind]
    rw [ihf]
    simp [Behind]
  | done =>
    have hsilent : ¬ Token.MixesWithin [] := Token.not_mixesWithin (List.forall_mem_nil _)
    exact fun left _ => (or_iff_left hsilent).symm
  | more op word next others ihn iho =>
    intro left id
    rw [tree, iho, yield, Token.mixesWithin_cons rfl, Token.mixesWithin_append next.balanced_yield]
    simp only [Behind, Expr.mixesWithin_logical]
    rw [ihn]
    simp [Behind]
    tauto

end Derivation

end CondLang
