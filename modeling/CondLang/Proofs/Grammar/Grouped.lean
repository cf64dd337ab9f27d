import CondLang.Proofs.Grammar.Bare
import CondLang.Proofs.Grammar.Parts

/-!
# Parts of a phrase in parentheses

Any part of a phrase whose tree is a node may be put in parentheses, as long as it is no argument of
a call (`Derivation.groups_of_mem_operandNodes`).  What results is a phrase, and its tree is the
same but for the spans and for which nodes stand in parentheses.

Nothing but the part itself changes.  Only a chain of which the part is a front part is cut in two:
the part becomes its first operand, and the operators behind it go on as before.
-/

namespace CondLang

/-! ## Nodes that are no arguments -/

namespace Expr

/-- The tree and the trees below it, but for the arguments of calls. -/
def operandNodes : Expr → List Expr
  | leaf node => [leaf node]
  | call mark name arguments => [call mark name arguments]
  | not mark operand => not mark operand :: operand.operandNodes
  | logical mark op left right =>
      logical mark op left right :: (left.operandNodes ++ right.operandNodes)
  | comparison mark op left right =>
      comparison mark op left right :: (left.operandNodes ++ right.operandNodes)

/-- A node of a tree is an argument of one of its calls. -/
def HasArgument (e n : Expr) : Prop :=
  ∃ mark name arguments, call mark name arguments ∈ e.nodes ∧ n ∈ arguments.map leaf

theorem HasArgument.mono {e e' n : Expr} (h : e.HasArgument n)
    (hnodes : ∀ m ∈ e.nodes, m ∈ e'.nodes) : e'.HasArgument n := by
  obtain ⟨mark, name, arguments, hcall, hn⟩ := h
  exact ⟨mark, name, arguments, hnodes _ hcall, hn⟩

theorem mem_operandNodes_or_hasArgument {e n : Expr} (h : n ∈ e.nodes) :
    n ∈ e.operandNodes ∨ e.HasArgument n := by
  induction e with
  | leaf node => exact .inl h
  | call mark name arguments =>
    rcases List.mem_cons.1 h with rfl | hargument
    · exact .inl List.mem_cons_self
    · exact .inr ⟨mark, name, arguments, List.mem_cons_self, hargument⟩
  | not mark operand ih =>
    rcases List.mem_cons.1 h with rfl | hbelow
    · exact .inl List.mem_cons_self
    · exact (ih hbelow).imp (List.mem_cons_of_mem _)
        (·.mono fun _ => List.mem_cons_of_mem _)
  | logical mark op left right ihl ihr | comparison mark op left right ihl ihr =>
    rcases List.mem_cons.1 h with rfl | hbelow
    · exact .inl List.mem_cons_self
    · rcases List.mem_append.1 hbelow with hleft | hright
      · exact (ihl hleft).imp (fun h => List.mem_cons_of_mem _ (List.mem_append_left _ h))
          (·.mono fun _ h => List.mem_cons_of_mem _ (List.mem_append_left _ h))
      · exact (ihr hright).imp (fun h => List.mem_cons_of_mem _ (List.mem_append_right _ h))
          (·.mono fun _ h => List.mem_cons_of_mem _ (List.mem_append_right _ h))

theorem mem_operandNodes_group {e n : Expr} {span : Span} (h : n ∈ (e.group span).operandNodes) :
    n = e.group span ∨ n ∈ e.operandNodes := by
  cases e with
  | leaf | call => exact .inl (List.mem_singleton.1 h)
  | not | logical | comparison =>
    exact (List.mem_cons.1 h).imp_right (List.mem_cons_of_mem _)

end Expr

namespace Derivation

variable {c c' : Category} {op : Connective}

/-! ## Phrases in parentheses -/

/-- A leaf, a call or a group as an operand. -/
def asOperand : (op : Connective) → Derivation .primary → Derivation (.operand op)
  | .and, d => conjunct (plain (single d))
  | .or, d => disjunct (chain (conjunct (plain (single d))) done)

@[simp] theorem yield_asOperand (d : Derivation .primary) : (asOperand op d).yield = d.yield := by
  cases op <;> simp [asOperand, yield]

@[simp] theorem size_asOperand (d : Derivation .primary) : (asOperand op d).size = d.size := by
  cases op <;> simp [asOperand, size]

@[simp] theorem tree_asOperand (d : Derivation .primary) (id : Nat) :
    (asOperand op d).tree () id = d.tree () id := by
  cases op <;> simp [asOperand, tree]

/-- What is left of a chain behind the operands that `take` keeps. -/
def drop : Nat → Derivation (.others op) → Derivation (.others op)
  | 0, d => d
  | _ + 1, done => done
  | n + 1, more _ _ _ others => others.drop n

theorem yield_take_append_drop : (d : Derivation (.others op)) → (n : Nat) →
    (d.take n).yield ++ (d.drop n).yield = d.yield
  | d, 0 => by simp [drop, yield]
  | done, n + 1 => by simp [drop, yield]
  | more _ word next others, n + 1 => by simp [drop, yield, others.yield_take_append_drop n]

theorem size_take_add_drop : (d : Derivation (.others op)) → (n : Nat) →
    (d.take n).size + (d.drop n).size = d.size
  | d, 0 => by simp [drop, size]
  | done, n + 1 => by simp [drop, size]
  | more _ word next others, n + 1 => by
    simp [drop, size, Nat.add_assoc, others.size_take_add_drop n]

/-- What a chain makes of the left is what its last operands make of what its first ones do. -/
theorem tree_drop : (d : Derivation (.others op)) → (n : Nat) → (left : Expr) → (id : Nat) →
    (d.drop n).tree ((d.take n).tree left id) (id + (d.take n).size) = d.tree left id
  | d, 0, left, id => by simp [drop, tree, size]
  | done, n + 1, left, id => by simp [drop, tree]
  | more _ word next others, n + 1, left, id => by
    have ih := others.tree_drop n (.logical ⟨id + next.size,
      left.span.cover (next.tree () id).span, false⟩ op left (next.tree () id)) (id + next.size + 1)
    simpa [drop, tree, size, Nat.add_assoc] using ih

theorem take_mapSpans (f : Span → Span) : (d : Derivation (.others op)) → (n : Nat) →
    (d.mapSpans f).take n = (d.take n).mapSpans f
  | d, 0 => by simp [mapSpans]
  | done, n + 1 => by simp [mapSpans]
  | more _ word next others, n + 1 => by simp [mapSpans, others.take_mapSpans f n]

theorem drop_mapSpans (f : Span → Span) : (d : Derivation (.others op)) → (n : Nat) →
    (d.mapSpans f).drop n = (d.drop n).mapSpans f
  | d, 0 => by simp [drop]
  | done, n + 1 => by simp [drop, mapSpans]
  | more _ word next others, n + 1 => by simp [drop, mapSpans, others.drop_mapSpans f n]

theorem resembles_parens_primary (d : Derivation .primary) (opening closing : Span) :
    d.Resembles (group opening (ofPrimary d) closing) :=
  ⟨by simp [size], fun _ _ _ id => by rw [tree, Expr.bare_group, tree_ofPrimary]⟩

theorem resembles_parens_comparison (d : Derivation .comparison) (opening closing : Span) :
    d.Resembles (single (group opening (ofComparison d) closing)) :=
  ⟨by simp [size], fun _ _ _ id => by rw [tree, tree, Expr.bare_group, tree_ofComparison]⟩

theorem resembles_parens_unary (d : Derivation .unary) (opening closing : Span) :
    d.Resembles (plain (single (group opening (ofUnary d) closing))) :=
  ⟨by simp [size], fun _ _ _ id => by rw [tree, tree, tree, Expr.bare_group, tree_ofUnary]⟩

/-- A front part of a chain may be its first operand. -/
theorem resembles_parens_front (first : Derivation (.operand op)) (others : Derivation (.others op))
    (k : Nat) (opening closing : Span) :
    (chain first others).Resembles
      (chain (asOperand op (group opening (ofChain (chain first (others.take k))) closing))
        (others.drop k)) := by
  refine ⟨?_, fun _ _ _ id => ?_⟩
  · simp [size, Nat.add_assoc, others.size_take_add_drop k]
  · have hgroup :
        ((asOperand op (group opening (ofChain (chain first (others.take k))) closing)).tree ()
          id).bare = ((others.take k).tree (first.tree () id) (id + first.size)).bare := by
      rw [tree_asOperand, tree, Expr.bare_group, tree_ofChain, tree]
    rw [tree, tree, ← others.tree_drop k]
    have hbehind := (Resembles.refl (others.drop k)).tree _ _ hgroup (id + first.size +
      (others.take k).size)
    simpa [size, Nat.add_assoc] using hbehind

end Derivation

/-! ## Parts of a phrase in parentheses -/

/-- The last of some tokens, if there are any, is a symbol, so that none of them is a name that a
parenthesis behind them would make the name of a function. -/
def Token.Opens (tokens : List Token) : Prop :=
  ∀ token ∈ tokens.getLast?, ∃ s, token.lexeme = .symbol s

theorem Token.opens_concat (tokens : List Token) (s : Symbol) (span : Span) :
    Opens (tokens ++ [⟨.symbol s, span⟩]) := by
  intro token htoken
  rw [List.getLast?_concat] at htoken
  cases htoken
  exact ⟨s, rfl⟩

/-- A phrase may stand behind some tokens.  What stands behind an operand starts with a symbol
itself. -/
def Category.Admits : Category → List Token → Prop
  | others _, _ => True
  | _, tokens => Token.Opens tokens

namespace Derivation

variable {c c' : Category} {op : Connective} {f : Span → Span} {n : Expr}

/-- A tree is that of a part of a phrase which may be put in parentheses while all tokens of the
phrase move to other places. -/
def Groups (f : Span → Span) (d : Derivation c) (n : Expr) : Prop :=
  ∃ (front : List Token) (e : Derivation .expression) (back : List Token) (id : Nat),
    d.yield = front ++ (e.yield ++ back) ∧ e.tree () id = n ∧
    (∀ outside, c.Admits outside → Token.Opens (outside ++ front)) ∧
    ∀ opening closing, ∃ d' : Derivation c, d.Resembles d' ∧
      d'.yield = front.map (·.mapSpan f) ++ ⟨.symbol .leftParen, opening⟩ ::
        (e.yield.map (·.mapSpan f) ++ ⟨.symbol .rightParen, closing⟩ :: back.map (·.mapSpan f))

/-- A part of a phrase is one of any phrase that holds that one. -/
theorem Groups.within {d : Derivation c} {whole : Derivation c'} (h : d.Groups f n)
    (before behind : List Token) (hyield : whole.yield = before ++ (d.yield ++ behind))
    (hadmits : ∀ outside, c'.Admits outside → c.Admits (outside ++ before))
    (hput : ∀ x : Derivation c, d.Resembles x → ∃ y : Derivation c', whole.Resembles y ∧
      y.yield = before.map (·.mapSpan f) ++ (x.yield ++ behind.map (·.mapSpan f))) :
    whole.Groups f n := by
  obtain ⟨front, e, back, id, hpart, htree, hopens, hgroup⟩ := h
  refine ⟨before ++ front, e, back ++ behind, id, ?_, htree, fun outside houtside => ?_,
    fun opening closing => ?_⟩
  · simp [hyield, hpart]
  · rw [← List.append_assoc]
    exact hopens _ (hadmits outside houtside)
  · obtain ⟨x, hx, hxyield⟩ := hgroup opening closing
    obtain ⟨y, hy, hyyield⟩ := hput x hx
    exact ⟨y, hy, by simp [hyyield, hxyield]⟩

/-- A part of what a phrase starts with is a part of the phrase. -/
theorem Groups.first {d : Derivation c} {whole : Derivation c'} (h : d.Groups f n)
    (behind : List Token) (hyield : whole.yield = d.yield ++ behind)
    (hadmits : ∀ outside, c'.Admits outside → c.Admits outside)
    (hput : ∀ x : Derivation c, d.Resembles x → ∃ y : Derivation c', whole.Resembles y ∧
      y.yield = x.yield ++ behind.map (·.mapSpan f)) : whole.Groups f n :=
  h.within [] behind hyield
    (fun outside houtside => by rw [List.append_nil]; exact hadmits outside houtside) hput

/-- A part of a phrase that is all of another one is a part of that. -/
theorem Groups.alone {d : Derivation c} {whole : Derivation c'} (h : d.Groups f n)
    (hyield : whole.yield = d.yield) (hadmits : ∀ outside, c'.Admits outside → c.Admits outside)
    (hput : ∀ x : Derivation c, d.Resembles x → ∃ y : Derivation c', whole.Resembles y ∧
      y.yield = x.yield) : whole.Groups f n :=
  h.first [] (by simp [hyield]) hadmits (by simpa using hput)

/-- A phrase may be put in parentheses as a whole. -/
theorem groups_self {d : Derivation c} {e : Derivation .expression} {id : Nat}
    (hyield : e.yield = d.yield) (htree : e.tree () id = n)
    (hadmits : ∀ outside, c.Admits outside → Token.Opens outside)
    (hput : ∀ opening closing, ∃ y : Derivation c, (d.mapSpans f).Resembles y ∧
      y.yield = ⟨.symbol .leftParen, opening⟩ ::
        ((d.mapSpans f).yield ++ [⟨.symbol .rightParen, closing⟩])) : d.Groups f n := by
  refine ⟨[], e, [], id, by simp [hyield], htree, by simpa using hadmits,
    fun opening closing => ?_⟩
  obtain ⟨y, hy, hyyield⟩ := hput opening closing
  exact ⟨y, (d.resembles_mapSpans f).trans hy, by simp [hyyield, hyield, yield_mapSpans]⟩

theorem groups_primary (d : Derivation .primary) (id : Nat) : d.Groups f (d.tree () id) :=
  groups_self (yield_ofPrimary d) (tree_ofPrimary d id) (fun _ h => h) fun opening closing =>
    ⟨_, resembles_parens_primary _ opening closing, by simp [yield]⟩

theorem groups_comparison (d : Derivation .comparison) (id : Nat) : d.Groups f (d.tree () id) :=
  groups_self (yield_ofComparison d) (tree_ofComparison d id) (fun _ h => h) fun opening closing =>
    ⟨_, resembles_parens_comparison _ opening closing, by simp [yield]⟩

theorem groups_unary (d : Derivation .unary) (id : Nat) : d.Groups f (d.tree () id) :=
  groups_self (yield_ofUnary d) (tree_ofUnary d id) (fun _ h => h) fun opening closing =>
    ⟨_, resembles_parens_unary _ opening closing, by simp [yield]⟩

/-- A front part of a chain may be put in parentheses. -/
theorem groups_front (first : Derivation (.operand op)) (others : Derivation (.others op))
    (k id : Nat) :
    (chain first others).Groups f ((chain first (others.take k)).tree () id) := by
  refine ⟨[], ofChain (chain first (others.take k)), (others.drop k).yield, id, ?_, by simp, ?_,
    fun opening closing => ?_⟩
  · simp [yield, others.yield_take_append_drop k]
  · intro outside houtside
    rwa [List.append_nil]
  · have hparens := resembles_parens_front (first.mapSpans f) (others.mapSpans f) k opening closing
    refine ⟨_, ((chain first others).resembles_mapSpans f).trans hparens, ?_⟩
    simp [yield, yield_mapSpans, take_mapSpans, drop_mapSpans]

/-- A node of the tree of a phrase that is no argument of a call is that of a part which may be put
in parentheses, but for those that have to do with what stands to the left. -/
theorem extends_or_groups (f : Span → Span) (d : Derivation c) : ∀ (left : c.Left) (id : Nat),
    n ∈ (d.tree left id).operandNodes → d.Extends Expr.operandNodes left id n ∨ d.Groups f n := by
  induction d with
  | leaf token =>
    intro _ id h
    rw [List.mem_singleton.1 h]
    exact .inr (groups_primary (leaf token) id)
  | call name expandable span opening arguments closing =>
    intro _ id h
    rw [List.mem_singleton.1 h]
    exact .inr (groups_primary (call name expandable span opening arguments closing) id)
  | group opening inner closing ih =>
    intro _ id h
    rcases Expr.mem_operandNodes_group h with rfl | hinner
    · exact .inr (groups_primary (group opening inner closing) id)
    · have hpart := (ih () id hinner).resolve_left not_false
      refine .inr (hpart.within [⟨.symbol .leftParen, opening⟩]
        [⟨.symbol .rightParen, closing⟩] rfl
        (fun outside _ => Token.opens_concat outside _ _) fun x hx => ?_)
      exact ⟨group (f opening) x (f closing), hx.group .., rfl⟩
  | single only ih =>
    intro _ id h
    have hpart := (ih () id h).resolve_left not_false
    exact .inr (hpart.alone rfl (fun _ h => h) fun x hx => ⟨single x, hx.single, rfl⟩)
  | compared left op sign right ihl ihr =>
    intro _ id h
    rcases List.mem_cons.1 h with rfl | hbelow
    · exact .inr (groups_comparison (compared left op sign right) id)
    · rcases List.mem_append.1 hbelow with hleft | hright
      · have hpart := (ihl () id hleft).resolve_left not_false
        refine .inr (hpart.first (⟨.symbol (.relation op), sign⟩ :: right.yield) rfl
          (fun _ h => h) fun x hx => ?_)
        have hright := right.resembles_mapSpans f
        exact ⟨compared x op (f sign) (right.mapSpans f), hx.compared hright ..,
          by simp [yield, yield_mapSpans, Token.mapSpan]⟩
      · have hpart := (ihr () _ hright).resolve_left not_false
        refine .inr (hpart.within (left.yield ++ [⟨.symbol (.relation op), sign⟩])
          [] (by simp [yield]) (fun outside _ => ?_) fun x hx => ?_)
        · rw [← List.append_assoc]
          exact Token.opens_concat _ _ _
        · have hleft := left.resembles_mapSpans f
          exact ⟨compared (left.mapSpans f) op (f sign) x, hleft.compared hx ..,
            by simp [yield, yield_mapSpans, Token.mapSpan]⟩
  | plain inner ih =>
    intro _ id h
    have hpart := (ih () id h).resolve_left not_false
    exact .inr (hpart.alone rfl (fun _ h => h) fun x hx => ⟨plain x, hx.plain, rfl⟩)
  | negated sign inner ih =>
    intro _ id h
    rcases List.mem_cons.1 h with rfl | hbelow
    · exact .inr (groups_unary (negated sign inner) id)
    · have hpart := (ih () id hbelow).resolve_left not_false
      refine .inr (hpart.within [⟨.symbol .not, sign⟩] [] (by simp [yield])
        (fun outside _ => Token.opens_concat outside _ _) fun x hx => ?_)
      exact ⟨negated (f sign) x, hx.negated .., by simp [yield, Token.mapSpan]⟩
  | conjunct inner ih =>
    intro _ id h
    have hpart := (ih () id h).resolve_left not_false
    exact .inr (hpart.alone rfl (fun _ h => h) fun x hx => ⟨conjunct x, hx.conjunct, rfl⟩)
  | disjunct inner ih =>
    intro _ id h
    have hpart := (ih () id h).resolve_left not_false
    exact .inr (hpart.alone rfl (fun _ h => h) fun x hx => ⟨disjunct x, hx.disjunct, rfl⟩)
  | chain first others ihf iho =>
    intro _ id h
    -- The others stand behind `first`, so what they make of it are front parts of the chain.
    rcases iho _ _ h with (hfirst | ⟨k, rfl⟩) | hothers
    · have hpart := (ihf () id hfirst).resolve_left not_false
      refine .inr (hpart.first others.yield rfl (fun _ h => h) fun x hx => ?_)
      exact ⟨chain x (others.mapSpans f), hx.chain (others.resembles_mapSpans f),
        by simp [yield, yield_mapSpans]⟩
    · exact .inr (groups_front first others k id)
    · refine .inr (hothers.within first.yield [] (by simp [yield])
        (fun _ _ => trivial) fun x hx => ?_)
      exact ⟨chain (first.mapSpans f) x, (first.resembles_mapSpans f).chain hx,
        by simp [yield, yield_mapSpans]⟩
  | done => exact fun left id h => .inl (.inl h)
  | more op word next others ihn iho =>
    intro left id h
    -- The others stand behind what this operator makes of the left, which is one operand more.
    rcases iho _ _ h with (hchain | ⟨k, rfl⟩) | hothers
    · rcases List.mem_cons.1 hchain with rfl | hbelow
      · exact .inl (.inr ⟨1, by simp [tree]⟩)
      · rcases List.mem_append.1 hbelow with hleft | hnext
        · exact .inl (.inl hleft)
        · have hpart := (ihn () id hnext).resolve_left not_false
          refine .inr (hpart.within [⟨.symbol (.connective op), word⟩]
            others.yield rfl (fun outside _ => Token.opens_concat outside _ _)
            fun x hx => ?_)
          exact ⟨more op (f word) x (others.mapSpans f), hx.more (others.resembles_mapSpans f) ..,
            by simp [yield, yield_mapSpans, Token.mapSpan]⟩
    · exact .inl (.inr ⟨k + 1, by simp [tree]⟩)
    · refine .inr (hothers.within (⟨.symbol (.connective op), word⟩ :: next.yield)
        [] (by simp [yield]) (fun _ _ => trivial) fun x hx => ?_)
      exact ⟨more op (f word) (next.mapSpans f) x, (next.resembles_mapSpans f).more hx ..,
        by simp [yield, yield_mapSpans, Token.mapSpan]⟩

/-- Each node of the tree of an expression that is no argument of a call is the tree of a part which
may be put in parentheses. -/
theorem groups_of_mem_operandNodes (f : Span → Span) {d : Derivation .expression} {id : Nat}
    (h : n ∈ (d.tree () id).operandNodes) : d.Groups f n :=
  (d.extends_or_groups f () id h).resolve_left not_false

end Derivation

end CondLang
