import CondLang.Proofs.Grammar

/-!
# The parts of a phrase

Each node of the tree of a phrase is the tree of an expression that the phrase holds
(`Derivation.hasPart_of_mem_nodes`): its tokens stand together among those of the phrase, and it
takes no more levels.  The nodes of a chain need care, because a chain of the grammar is flat and
its tree is not.  The tree of each front part of a chain is a node of the tree, so the parts to look
for are the chain cut off behind any of its operands (`Derivation.take`).
-/

namespace CondLang

namespace Derivation

/-! ## Any phrase as an expression -/

/-- A chain of either connective as an expression. -/
def ofChain : {op : Connective} → Derivation (.chain op) → Derivation .expression
  | .or, d => d
  | .and, d => chain (disjunct d) done

/-- A negation as an expression. -/
def ofUnary (d : Derivation .unary) : Derivation .expression := ofChain (chain (conjunct d) done)

/-- A comparison as an expression. -/
def ofComparison (d : Derivation .comparison) : Derivation .expression := ofUnary (plain d)

/-- A leaf, a call or a group as an expression. -/
def ofPrimary (d : Derivation .primary) : Derivation .expression := ofComparison (single d)

section

variable {op : Connective}

@[simp] theorem yield_ofChain (d : Derivation (.chain op)) : (ofChain d).yield = d.yield := by
  cases op with
  | or => rfl
  | and => simp [ofChain, yield]

@[simp] theorem need_ofChain (d : Derivation (.chain op)) : (ofChain d).need = d.need := by
  cases op with
  | or => rfl
  | and => simp [ofChain, need]

@[simp] theorem size_ofChain (d : Derivation (.chain op)) : (ofChain d).size = d.size := by
  cases op with
  | or => rfl
  | and => simp [ofChain, size]

@[simp] theorem tree_ofChain (d : Derivation (.chain op)) (id : Nat) :
    (ofChain d).tree () id = d.tree () id := by
  cases op with
  | or => rfl
  | and => simp [ofChain, tree]

@[simp] theorem yield_ofUnary (d : Derivation .unary) : (ofUnary d).yield = d.yield := by
  simp [ofUnary, yield]

@[simp] theorem need_ofUnary (d : Derivation .unary) : (ofUnary d).need = d.need := by
  simp [ofUnary, need]

@[simp] theorem size_ofUnary (d : Derivation .unary) : (ofUnary d).size = d.size := by
  simp [ofUnary, size]

@[simp] theorem tree_ofUnary (d : Derivation .unary) (id : Nat) :
    (ofUnary d).tree () id = d.tree () id := by
  simp [ofUnary, tree]

@[simp] theorem yield_ofComparison (d : Derivation .comparison) :
    (ofComparison d).yield = d.yield := by
  simp [ofComparison, yield]

@[simp] theorem need_ofComparison (d : Derivation .comparison) :
    (ofComparison d).need = d.need := by
  simp [ofComparison, need]

@[simp] theorem size_ofComparison (d : Derivation .comparison) :
    (ofComparison d).size = d.size := by
  simp [ofComparison, size]

@[simp] theorem tree_ofComparison (d : Derivation .comparison) (id : Nat) :
    (ofComparison d).tree () id = d.tree () id := by
  simp [ofComparison, tree]

@[simp] theorem yield_ofPrimary (d : Derivation .primary) : (ofPrimary d).yield = d.yield := by
  simp [ofPrimary, yield]

@[simp] theorem need_ofPrimary (d : Derivation .primary) : (ofPrimary d).need = d.need := by
  simp [ofPrimary, need]

@[simp] theorem size_ofPrimary (d : Derivation .primary) : (ofPrimary d).size = d.size := by
  simp [ofPrimary, size]

@[simp] theorem tree_ofPrimary (d : Derivation .primary) (id : Nat) :
    (ofPrimary d).tree () id = d.tree () id := by
  simp [ofPrimary, tree]

/-! ## Chains cut short -/

/-- The first operands of a chain behind its first one. -/
def take : Nat → Derivation (.others op) → Derivation (.others op)
  | 0, _ => done
  | _ + 1, done => done
  | n + 1, more _ word next others => more op word next (others.take n)

@[simp] theorem take_zero (d : Derivation (.others op)) : d.take 0 = done := by
  rw [take]

@[simp] theorem take_done (n : Nat) : (done : Derivation (.others op)).take n = done := by
  cases n with
  | zero => rw [take]
  | succ n => rw [take]

@[simp] theorem take_more (n : Nat) (word : Span) (next : Derivation (.operand op))
    (others : Derivation (.others op)) :
    (more op word next others).take (n + 1) = more op word next (others.take n) := by
  rw [take]

theorem yield_take_prefix : (d : Derivation (.others op)) → (n : Nat) →
    (d.take n).yield <+: d.yield
  | d, 0 => by simp [yield]
  | done, n + 1 => by simp
  | more _ word next others, n + 1 => by
    have ih := others.yield_take_prefix n
    simpa [yield, List.prefix_append_right_inj] using ih

theorem need_take_le : (d : Derivation (.others op)) → (n : Nat) → (d.take n).need ≤ d.need
  | d, 0 => by simp [need]
  | done, n + 1 => by simp
  | more _ word next others, n + 1 => by
    have ih := others.need_take_le n
    simp only [take_more, need]
    omega

end

/-! ## Nodes and parts -/

variable {c c' : Category} {n : Expr}

/-- A tree is that of an expression whose tokens stand together in a phrase, and which takes no more
levels than the phrase. -/
def HasPart (d : Derivation c) (n : Expr) : Prop :=
  ∃ (e : Derivation .expression) (id : Nat),
    e.yield <:+: d.yield ∧ e.need ≤ d.need ∧ e.tree () id = n

theorem HasPart.mono {d : Derivation c} {d' : Derivation c'} (h : d.HasPart n)
    (hyield : d.yield <:+: d'.yield) (hneed : d.need ≤ d'.need) : d'.HasPart n := by
  obtain ⟨e, id, htogether, hle, htree⟩ := h
  exact ⟨e, id, htogether.trans hyield, Nat.le_trans hle hneed, htree⟩

theorem hasPart_chain {op : Connective} (d : Derivation (.chain op)) (id : Nat) :
    d.HasPart (d.tree () id) :=
  ⟨ofChain d, id, by simp, by simp, by simp⟩

theorem hasPart_unary (d : Derivation .unary) (id : Nat) : d.HasPart (d.tree () id) :=
  ⟨ofUnary d, id, by simp, by simp, by simp⟩

theorem hasPart_comparison (d : Derivation .comparison) (id : Nat) :
    d.HasPart (d.tree () id) :=
  ⟨ofComparison d, id, by simp, by simp, by simp⟩

theorem hasPart_primary (d : Derivation .primary) (id : Nat) : d.HasPart (d.tree () id) :=
  ⟨ofPrimary d, id, by simp, by simp, by simp⟩

/-- The trees that the rest of a chain makes of what stands to its left, and those within that. -/
def Extends (within : Expr → List Expr) :
    {c : Category} → Derivation c → c.Left → Nat → Expr → Prop
  | .others _, d, left, id, n => n ∈ within left ∨ ∃ k, (d.take k).tree left id = n
  | .primary, _, _, _, _ | .comparison, _, _, _, _ | .unary, _, _, _, _ | .operand _, _, _, _, _
  | .chain _, _, _, _, _ => False

end Derivation

theorem Expr.mem_nodes_group {e n : Expr} {span : Span} (h : n ∈ (e.group span).nodes) :
    n = e.group span ∨ n ∈ e.nodes := by
  cases e with
  | leaf node => exact .inl (List.mem_singleton.1 h)
  | call | not | logical | comparison =>
    rcases List.mem_cons.1 h with hself | hbelow
    · exact .inl hself
    · exact .inr (List.mem_cons_of_mem _ hbelow)

/-- The arguments of a call are leaves of its tree. -/
theorem Arguments.exists_of_mem_leaves {arguments : Arguments} {id : Nat} {node : LeafNode}
    (h : node ∈ arguments.leaves id) :
    ∃ (token : LeafToken) (id' : Nat), node = token.node id' ∧
      [token.token] <:+: arguments.yield := by
  induction arguments generalizing id with
  | last argument => exact ⟨argument, id, List.mem_singleton.1 h, List.infix_rfl⟩
  | more argument comma others ih =>
    rcases List.mem_cons.1 h with rfl | hothers
    · exact ⟨argument, id, rfl, (List.prefix_append [argument.token] _).isInfix⟩
    · obtain ⟨token, id', hnode, htogether⟩ := ih hothers
      exact ⟨token, id', hnode, List.infix_cons (List.infix_cons htogether)⟩

namespace Derivation

variable {c : Category} {n : Expr}

/-- A node of the tree of a phrase is that of a part, but for those that have to do with what stands
to the left. -/
theorem extends_or_hasPart (d : Derivation c) : ∀ (left : c.Left) (id : Nat),
    n ∈ (d.tree left id).nodes → d.Extends Expr.nodes left id n ∨ d.HasPart n := by
  induction d with
  | leaf token =>
    intro _ id h
    rw [List.mem_singleton.1 h]
    exact .inr (hasPart_primary (leaf token) id)
  | call name expandable span opening arguments closing =>
    intro _ id h
    rcases List.mem_cons.1 h with rfl | hargument
    · exact .inr (hasPart_primary (call name expandable span opening arguments closing) id)
    · obtain ⟨node, hnode, rfl⟩ := List.mem_map.1 hargument
      cases arguments with
      | none => cases hnode
      | some a =>
        obtain ⟨token, id', rfl, htogether⟩ := Arguments.exists_of_mem_leaves hnode
        have hprefix := List.prefix_append a.yield [⟨.symbol .rightParen, closing⟩]
        have hwithin := htogether.trans hprefix.isInfix
        have hpart := hasPart_primary (leaf token) id'
        exact .inr (hpart.mono (List.infix_cons (List.infix_cons hwithin)) (Nat.le_refl _))
  | group opening inner closing ih =>
    intro _ id h
    rcases Expr.mem_nodes_group h with rfl | hinner
    · exact .inr (hasPart_primary (group opening inner closing) id)
    · have hpart := (ih () id hinner).resolve_left not_false
      exact .inr (hpart.mono (List.infix_cons (List.prefix_append _ _).isInfix) (Nat.le_succ _))
  | single only ih => exact fun _ id h => .inr ((ih () id h).resolve_left not_false)
  | compared left op sign right ihl ihr =>
    intro _ id h
    rcases List.mem_cons.1 h with rfl | hbelow
    · exact .inr (hasPart_comparison (compared left op sign right) id)
    · rcases List.mem_append.1 hbelow with hleft | hright
      · have hpart := (ihl () id hleft).resolve_left not_false
        exact .inr (hpart.mono (List.prefix_append _ _).isInfix (Nat.le_max_left _ _))
      · have hpart := (ihr () _ hright).resolve_left not_false
        have hsuffix : right.yield <:+ (compared left op sign right).yield :=
          (List.suffix_cons _ _).trans (List.suffix_append _ _)
        exact .inr (hpart.mono hsuffix.isInfix (Nat.le_max_right _ _))
  | plain inner ih => exact fun _ id h => .inr ((ih () id h).resolve_left not_false)
  | negated sign inner ih =>
    intro _ id h
    rcases List.mem_cons.1 h with rfl | hbelow
    · exact .inr (hasPart_unary (negated sign inner) id)
    · have hpart := (ih () id hbelow).resolve_left not_false
      exact .inr (hpart.mono (List.suffix_cons _ _).isInfix (Nat.le_succ _))
  | conjunct inner ih => exact fun _ id h => .inr ((ih () id h).resolve_left not_false)
  | disjunct inner ih => exact fun _ id h => .inr ((ih () id h).resolve_left not_false)
  | chain first others ihf iho =>
    intro _ id h
    -- The others stand behind `first`, so what they make of it are front parts of the chain.
    rcases iho _ _ h with (hfirst | ⟨k, rfl⟩) | hothers
    · have hpart := (ihf () id hfirst).resolve_left not_false
      exact .inr (hpart.mono (List.prefix_append _ _).isInfix (Nat.le_max_left _ _))
    · have hprefix := (List.prefix_append_right_inj first.yield).2 (others.yield_take_prefix k)
      refine .inr ((hasPart_chain (chain first (others.take k)) id).mono hprefix.isInfix ?_)
      have hle := others.need_take_le k
      simp only [need]
      omega
    · exact .inr (hothers.mono (List.suffix_append _ _).isInfix (Nat.le_max_right _ _))
  | done => exact fun left id h => .inl (.inl h)
  | more op word next others ihn iho =>
    intro left id h
    -- The others stand behind what this operator makes of the left, which is one operand more.
    rcases iho _ _ h with (hchain | ⟨k, rfl⟩) | hothers
    · rcases List.mem_cons.1 hchain with rfl | hbelow
      · exact .inl (.inr ⟨1, by simp [tree]⟩)
      · rcases List.mem_append.1 hbelow with hleft | hnext
        · exact .inl (.inl hleft)
        · have hpart := (ihn () id hnext).resolve_left not_false
          refine .inr (hpart.mono (List.infix_cons (List.prefix_append _ _).isInfix) ?_)
          simp only [need]
          omega
    · exact .inl (.inr ⟨k + 1, by simp [tree]⟩)
    · refine .inr (hothers.mono (List.infix_cons (List.suffix_append _ _).isInfix) ?_)
      simp only [need]
      omega

/-- Each node of the tree of an expression is the tree of a part of the expression. -/
theorem hasPart_of_mem_nodes {d : Derivation .expression} {id : Nat}
    (h : n ∈ (d.tree () id).nodes) : d.HasPart n :=
  (d.extends_or_hasPart () id h).resolve_left not_false

end Derivation

end CondLang
