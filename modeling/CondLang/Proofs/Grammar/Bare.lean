import CondLang.Proofs.Grammar.Moved
import CondLang.Proofs.Twins

/-!
# Trees without their places

`Expr.bare` is what is left of a tree without the spans of its nodes and without which of them stand
in parentheses.  Phrases that `Derivation.Resembles` relates have the same such tree.  Parentheses
around a phrase do not matter to it, nor does where the tokens of a phrase stand
(`Derivation.resembles_mapSpans`), and a phrase resembles another one if its parts do.
-/

namespace CondLang

/-! ## Trees without their places -/

/-- The mark but for where the node stands and whether it is in parentheses. -/
def Mark.bare (mark : Mark) : Mark := ⟨mark.id, ⟨0, 0⟩, false⟩

/-- The leaf but for where it stands and whether it is in parentheses. -/
def LeafNode.bare (node : LeafNode) : LeafNode := ⟨node.mark.bare, node.leaf⟩

namespace Expr

/-- The tree but for where its nodes stand and which are in parentheses. -/
def bare : Expr → Expr
  | leaf node => leaf node.bare
  | call mark name arguments => call mark.bare name (arguments.map (·.bare))
  | not mark operand => not mark.bare operand.bare
  | logical mark op left right => logical mark.bare op left.bare right.bare
  | comparison mark op left right => comparison mark.bare op left.bare right.bare

/-- Trees that differ in their places only are twins whose nodes have the same numbers. -/
theorem twins_of_bare_eq {e e' : Expr} (h : e.bare = e'.bare) :
    e.Twins (fun mark mark' => mark'.id = mark.id) e' := by
  have hmark {mark mark' : Mark} (h : mark.bare = mark'.bare) : mark'.id = mark.id :=
    (Mark.mk.inj h).1.symm
  have hleaf {node node' : LeafNode} (h : node.bare = node'.bare) :
      node.Twins (fun mark mark' => mark'.id = mark.id) node' := by
    obtain ⟨hsame, hleaf⟩ := LeafNode.mk.inj h
    exact ⟨hmark hsame, hleaf ▸ .same node.leaf⟩
  induction e generalizing e' with
  | leaf node =>
    cases e' with
    | leaf node' => exact .leaf (hleaf (leaf.inj h))
    | _ => simp only [bare, reduceCtorEq] at h
  | call mark name arguments =>
    cases e' with
    | call mark' name' arguments' =>
      obtain ⟨hsame, rfl, harguments⟩ := call.inj h
      rw [← List.forall₂_eq_eq_eq, List.forall₂_map_left_iff, List.forall₂_map_right_iff]
        at harguments
      exact .call (hmark hsame) name (harguments.imp fun _ _ => hleaf)
    | _ => simp only [bare, reduceCtorEq] at h
  | not mark operand ih =>
    cases e' with
    | not mark' operand' =>
      obtain ⟨hsame, hoperand⟩ := not.inj h
      exact .not (hmark hsame) (ih hoperand)
    | _ => simp only [bare, reduceCtorEq] at h
  | logical mark op left right ihl ihr =>
    cases e' with
    | logical mark' op' left' right' =>
      obtain ⟨hsame, rfl, hleft, hright⟩ := logical.inj h
      exact .logical (hmark hsame) op (ihl hleft) (ihr hright)
    | _ => simp only [bare, reduceCtorEq] at h
  | comparison mark op left right ihl ihr =>
    cases e' with
    | comparison mark' op' left' right' =>
      obtain ⟨hsame, rfl, hleft, hright⟩ := comparison.inj h
      exact .comparison (hmark hsame) op (ihl hleft) (ihr hright)
    | _ => simp only [bare, reduceCtorEq] at h

@[simp] theorem bare_group (e : Expr) (span : Span) : (e.group span).bare = e.bare := by
  cases e <;> rfl

end Expr

namespace Derivation

/-! ## Phrases that resemble one another -/

variable {c c' : Category} {op : Connective}

/-- What stands to the left of two phrases is the same tree but for places. -/
def SameBefore : (c : Category) → c.Left → c.Left → Prop
  | .others _, left, left' => left'.bare = left.bare
  | .primary, _, _ | .comparison, _, _ | .unary, _, _ | .operand _, _, _ | .chain _, _, _ => True

/-- Two phrases stand for the same tree but for places. -/
structure Resembles (d d' : Derivation c) : Prop where
  size : d'.size = d.size
  tree (left left' : c.Left) (hleft : SameBefore c left left') (id : Nat) :
    (d'.tree left' id).bare = (d.tree left id).bare

namespace Resembles

theorem group {inner inner' : Derivation .expression} (h : inner.Resembles inner')
    (opening closing opening' closing' : Span) :
    (group opening inner closing).Resembles (.group opening' inner' closing') :=
  ⟨h.size, fun _ _ _ id => by
    rw [Derivation.tree, Derivation.tree, Expr.bare_group, Expr.bare_group, h.tree () () trivial]⟩

theorem single {only only' : Derivation .primary} (h : only.Resembles only') :
    (single only).Resembles (.single only') :=
  ⟨h.size, fun _ _ _ => h.tree () () trivial⟩

theorem compared {left left' right right' : Derivation .primary} (hleft : left.Resembles left')
    (hright : right.Resembles right') (op : Relation) (sign sign' : Span) :
    (compared left op sign right).Resembles (.compared left' op sign' right') := by
  refine ⟨?_, fun _ _ _ id => ?_⟩
  · rw [Derivation.size, Derivation.size, hleft.size, hright.size]
  · simp only [Derivation.tree, Expr.bare, Mark.bare, hleft.size, hright.size,
      hleft.tree () () trivial, hright.tree () () trivial]

theorem plain {inner inner' : Derivation .comparison} (h : inner.Resembles inner') :
    (plain inner).Resembles (.plain inner') :=
  ⟨h.size, fun _ _ _ => h.tree () () trivial⟩

theorem negated {inner inner' : Derivation .unary} (h : inner.Resembles inner')
    (sign sign' : Span) : (negated sign inner).Resembles (.negated sign' inner') := by
  refine ⟨congrArg (· + 1) h.size, fun _ _ _ id => ?_⟩
  simp only [Derivation.tree, Expr.bare, Mark.bare, h.size, h.tree () () trivial]

theorem conjunct {inner inner' : Derivation .unary} (h : inner.Resembles inner') :
    (conjunct inner).Resembles (.conjunct inner') :=
  ⟨h.size, fun _ _ _ => h.tree () () trivial⟩

theorem disjunct {inner inner' : Derivation (.chain .and)} (h : inner.Resembles inner') :
    (disjunct inner).Resembles (.disjunct inner') :=
  ⟨h.size, fun _ _ _ => h.tree () () trivial⟩

theorem chain {first first' : Derivation (.operand op)} {others others' : Derivation (.others op)}
    (hfirst : first.Resembles first') (hothers : others.Resembles others') :
    (chain first others).Resembles (.chain first' others') := by
  refine ⟨?_, fun _ _ _ id => ?_⟩
  · rw [Derivation.size, Derivation.size, hfirst.size, hothers.size]
  · rw [Derivation.tree, Derivation.tree, hfirst.size]
    exact hothers.tree _ _ (hfirst.tree () () trivial id) _

theorem more {next next' : Derivation (.operand op)} {others others' : Derivation (.others op)}
    (hnext : next.Resembles next') (hothers : others.Resembles others') (word word' : Span) :
    (more op word next others).Resembles (.more op word' next' others') := by
  refine ⟨?_, fun left left' hleft id => ?_⟩
  · rw [Derivation.size, Derivation.size, hnext.size, hothers.size]
  · rw [Derivation.tree, Derivation.tree, hnext.size]
    refine hothers.tree _ _ ?_ _
    have hbare : left'.bare = left.bare := hleft
    show Expr.bare _ = Expr.bare _
    simp only [Expr.bare, Mark.bare, hbare, hnext.tree () () trivial]

end Resembles

end Derivation

theorem Arguments.bare_leaves_mapSpans (f : Span → Span) (arguments : Arguments) (id : Nat) :
    ((arguments.mapSpans f).leaves id).map (·.bare) = (arguments.leaves id).map (·.bare) := by
  induction arguments generalizing id with
  | last argument => rfl
  | more argument comma others ih =>
    rw [mapSpans, leaves, leaves, List.map_cons, List.map_cons, ih]
    rfl

namespace Derivation

variable {c c' : Category} {op : Connective} {f : Span → Span}

/-- Tokens that stand elsewhere make up the same tree but for places. -/
theorem resembles_mapSpans (f : Span → Span) (d : Derivation c) : d.Resembles (d.mapSpans f) := by
  induction d with
  | leaf token => exact ⟨rfl, fun _ _ _ _ => rfl⟩
  | call name expandable span opening arguments closing =>
    refine ⟨size_mapSpans _, fun _ _ _ id => ?_⟩
    cases arguments with
    | none => rfl
    | some a =>
      simp only [mapSpans, tree, Option.map_some, Option.elim_some, Arguments.count_mapSpans,
        Expr.bare, Mark.bare, a.bare_leaves_mapSpans]
  | group opening inner closing ih => exact ih.group ..
  | single only ih => exact ih.single
  | compared left op sign right ihl ihr => exact ihl.compared ihr ..
  | plain inner ih => exact ih.plain
  | negated sign inner ih => exact ih.negated ..
  | conjunct inner ih => exact ih.conjunct
  | disjunct inner ih => exact ih.disjunct
  | chain first others ihf iho => exact ihf.chain iho
  | done => exact ⟨rfl, fun _ _ hleft _ => hleft⟩
  | more op word next others ihn iho => exact ihn.more iho ..

theorem SameBefore.refl : {c : Category} → (left : c.Left) → SameBefore c left left
  | .others _, _ => rfl
  | .primary, _ | .comparison, _ | .unary, _ | .operand _, _ | .chain _, _ => trivial

namespace Resembles

theorem trans {d d' d'' : Derivation c} (h : d.Resembles d') (h' : d'.Resembles d'') :
    d.Resembles d'' :=
  ⟨h'.size.trans h.size, fun left left' hleft id =>
    (h'.tree left' left' (.refl left') id).trans (h.tree left left' hleft id)⟩

theorem refl (d : Derivation c) : d.Resembles d := by
  have hmoved := d.resembles_mapSpans id
  exact ⟨rfl, fun left left' hleft id =>
    (hmoved.tree left' left' (.refl left') id).symm.trans (hmoved.tree left left' hleft id)⟩

end Resembles

end Derivation

end CondLang
