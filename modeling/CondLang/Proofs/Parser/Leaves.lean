import CondLang.Proofs.Evaluation.Leaves
import CondLang.Proofs.Expansion.Asked
import CondLang.Proofs.Lexing.Exchange
import CondLang.Proofs.Lexing.References
import CondLang.Proofs.Parser.Exact

/-!
# The leaves of a condition

The leaves of an accepted condition are the literals and references among its tokens, in the order
of the text (`Derivation.leaves_tree`).  So each leaf has been read from the text and been checked
against the policy: its text stands in that of the condition, and the references that its expansion
asks for are of kinds that are allowed.
-/

namespace CondLang

theorem Expr.leaves_group (e : Expr) (span : Span) :
    (e.group span).leaves.map (·.leaf) = e.leaves.map (·.leaf) := by
  cases e <;> rfl

/-- The literals and references among tokens. -/
def Token.leaves (tokens : List Token) : List Leaf := tokens.filterMap (Parser.leafOf? ·.lexeme)

namespace Token

theorem leaves_append (front back : List Token) :
    leaves (front ++ back) = leaves front ++ leaves back := List.filterMap_append

theorem leaves_symbol (s : Symbol) (span : Span) (tokens : List Token) :
    leaves (⟨.symbol s, span⟩ :: tokens) = leaves tokens := rfl

theorem leaves_leafToken (t : LeafToken) (tokens : List Token) :
    leaves (t.token :: tokens) = t.leaf :: leaves tokens := by
  rw [leaves, List.filterMap_cons, Parser.leafOf?_eq_some_iff.2 t.denotes]
  rfl

end Token

theorem Arguments.leaves_leaves (arguments : Arguments) (id : Nat) :
    (arguments.leaves id).map (·.leaf) = Token.leaves arguments.yield := by
  induction arguments generalizing id with
  | last argument => rw [yield, Token.leaves_leafToken]; rfl
  | more argument comma others ih =>
    rw [leaves, yield, Token.leaves_leafToken, Token.leaves_symbol, List.map_cons, ih]
    rfl

namespace Derivation

/-- The leaves of a phrase behind those of what stands to its left. -/
def leavesBehind : {c : Category} → c.Left → Derivation c → List Leaf
  | .others _, left, d => left.leaves.map (·.leaf) ++ Token.leaves d.yield
  | .primary, _, d | .comparison, _, d | .unary, _, d | .operand _, _, d | .chain _, _, d =>
      Token.leaves d.yield

/-- The leaves of a tree are the literals and references among the tokens. -/
theorem leaves_tree {c : Category} (d : Derivation c) : ∀ (left : c.Left) (id : Nat),
    (d.tree left id).leaves.map (·.leaf) = d.leavesBehind left := by
  induction d with
  | leaf token =>
    intro _ id
    exact (Token.leaves_leafToken token []).symm
  | call name expandable span opening arguments closing =>
    intro _ id
    have harguments : (arguments.elim [] (·.leaves id)).map (·.leaf) =
        Token.leaves (arguments.elim [] Arguments.yield) := by
      cases arguments with
      | none => rfl
      | some a => exact a.leaves_leaves id
    rw [tree, Expr.leaves, harguments]
    show _ = Token.leaves (_ ++ [⟨.symbol .rightParen, closing⟩])
    rw [Token.leaves_append]
    exact (List.append_nil _).symm
  | group opening inner closing ih =>
    intro _ id
    rw [tree, Expr.leaves_group, ih, leavesBehind, leavesBehind, yield, Token.leaves_symbol,
      Token.leaves_append]
    exact (List.append_nil _).symm
  | single only ih => exact fun _ id => ih () id
  | compared left op sign right ihl ihr =>
    intro _ id
    rw [tree, Expr.leaves, List.map_append, ihl, ihr]
    show _ = Token.leaves (left.yield ++ ⟨.symbol (.relation op), sign⟩ :: right.yield)
    rw [Token.leaves_append, Token.leaves_symbol]
    rfl
  | plain inner ih => exact fun _ id => ih () id
  | negated sign inner ih => exact fun _ id => ih () id
  | conjunct inner ih => exact fun _ id => ih () id
  | disjunct inner ih => exact fun _ id => ih () id
  | chain first others ihf iho =>
    intro _ id
    rw [tree, iho, leavesBehind, ihf]
    exact (Token.leaves_append first.yield _).symm
  | done =>
    intro left id
    exact (List.append_nil _).symm
  | more op word next others ihn iho =>
    intro left id
    have hnext : (next.tree () id).leaves.map (·.leaf) = Token.leaves next.yield := ihn () id
    rw [tree, iho, leavesBehind, leavesBehind, Expr.leaves, List.map_append, hnext,
      List.append_assoc, ← Token.leaves_append]
    rfl

end Derivation

/-! ## Comparisons -/

theorem Lexeme.Denotes.ne_endOfInput {lexeme : Lexeme} {leaf : Leaf} (h : lexeme.Denotes leaf) :
    lexeme ≠ .symbol .endOfInput := by
  rintro rfl
  cases h

/-- Two leaves with a relation between them are a condition, if they are allowed. -/
theorem Condition.parse_comparison {left right : String} {l r : Lexeme} {leaf leaf' : Leaf}
    {policy : Policy} (op : Relation)
    (hleft : Lexeme.Spells left.toList l (' ' :: (op.symbol.toList ++ ' ' :: right.toList)))
    (hright : Lexeme.Spells right.toList r []) (hl : l.Denotes leaf) (hr : r.Denotes leaf')
    (hallowed : policy.violation? l = none) (hallowed' : policy.violation? r = none) :
    ∃ condition mark first second,
      parse (left ++ " " ++ op.symbol ++ " " ++ right) policy = .ok condition ∧
        condition.root = .comparison mark op (.leaf ⟨first, leaf⟩) (.leaf ⟨second, leaf'⟩) := by
  obtain ⟨first, sign, second, stop, htokens⟩ :=
    Lexeme.allTokens_comparison op hleft hl.ne_endOfInput hright hr.ne_endOfInput
  let lt : LeafToken := ⟨⟨l, first⟩, leaf, hl⟩
  let rt : LeafToken := ⟨⟨r, second⟩, leaf', hr⟩
  let d : Derivation .expression := .chain (.disjunct (.chain (.conjunct (.plain
    (.compared (.leaf lt) op sign (.leaf rt)))) .done)) .done
  refine ⟨_, _, _, _, parse_of_derivation d rfl htokens (fun token htoken => ?_) (Nat.zero_le _),
    rfl⟩
  have htoken : token = ⟨l, first⟩ ∨ token = ⟨.symbol (.relation op), sign⟩ ∨
      token = ⟨r, second⟩ := by
    simpa [d, Derivation.yield, lt, rt] using htoken
  rcases htoken with rfl | rfl | rfl
  · exact hallowed
  · rfl
  · exact hallowed'

/-! ## Leaves and the text of a condition -/

namespace Condition

open Expansion (Asks Reaches)

variable {text : String} {policy : Policy} {condition : Condition} {node : LeafNode}

/-- Each leaf was read somewhere in the text, and passed the policy. -/
theorem exists_spells_of_mem_leaves (h : parse text policy = .ok condition)
    (hnode : node ∈ condition.root.leaves) :
    ∃ front lexeme rest, Lexeme.Spells front lexeme rest ∧ front <:+: text.toList ∧
      lexeme.Denotes node.leaf ∧ policy.violation? lexeme = none := by
  obtain ⟨d, stop, -, htokens, hallowed, -, rfl⟩ := exists_derivation_of_parse h
  have hleaf : node.leaf ∈ (d.tree () 0).leaves.map (·.leaf) := List.mem_map_of_mem hnode
  rw [d.leaves_tree () 0] at hleaf
  obtain ⟨token, htoken, hlexeme⟩ := List.mem_filterMap.1 hleaf
  obtain ⟨taken, left, stop', -, heq, htaken, -, -⟩ :=
    Cursor.reads_iff.1 (Command.allTokens_eq_ok_iff.1 htokens)
  obtain rfl : d.yield = taken := (List.append_inj' heq rfl).1
  obtain ⟨before, others, cursor, after, -, hbefore, hnext, -⟩ := htaken.exists_next htoken
  obtain ⟨blanks, front, hcuts⟩ := Cursor.next_eq_ok_iff.1 hnext
  refine ⟨front, token.lexeme, after.rest, hcuts.spells, ?_, Parser.leafOf?_eq_some_iff.1 hlexeme,
    hallowed token htoken⟩
  have hdrop := hcuts.drop_start (hbefore.within (Cursor.within_ofText text))
  have hsuffix := List.drop_suffix token.span.start text.toList
  rw [hdrop] at hsuffix
  exact (List.prefix_append front _).isInfix.trans hsuffix.isInfix

/-- The text of a leaf stands in that of the condition. -/
theorem leaf_isInfix (h : parse text policy = .ok condition)
    (hnode : node ∈ condition.root.leaves) : node.leaf.text.toList <:+: text.toList := by
  obtain ⟨front, lexeme, rest, hspells, hfront, hdenotes, -⟩ := exists_spells_of_mem_leaves h hnode
  refine List.IsInfix.trans ?_ hfront
  have hwritten := hspells.writtenAs
  have hsame : ∀ content, String.ofList front = content → content.toList <:+: front := by
    rintro content rfl
    simp
  generalize node.leaf = leaf at hdenotes
  cases hdenotes with
  | string content expandable =>
    rcases hwritten nofun with hquoted | ⟨hbare, -⟩
    · have hfront := congrArg String.toList hquoted
      rw [String.toList_ofList, String.toList_append, String.toList_append] at hfront
      rw [hfront]
      exact ⟨_, _, rfl⟩
    · exact hsame content hbare
  | number content => exact hsame content (hwritten nofun)
  | reference kind content => exact hsame content (hwritten nofun)

/-- A leaf that is not expanded has only pieces that stand for their own characters. -/
theorem pieces_of_not_expandable (h : parse text policy = .ok condition)
    (hnode : node ∈ condition.root.leaves) (hexpandable : node.leaf.expandable = false) :
    (Expansion.pieces node.leaf.text.toList).any Piece.expandable = false := by
  obtain ⟨front, lexeme, rest, hspells, -, hdenotes, -⟩ := exists_spells_of_mem_leaves h hnode
  generalize node.leaf = leaf at hdenotes hexpandable
  cases hdenotes with
  | string content expandable =>
    obtain rfl : expandable = false := hexpandable
    rcases hspells.writtenAs nofun with hquoted | ⟨-, hname⟩
    · have hfront := congrArg String.toList hquoted
      rw [String.toList_ofList, String.toList_append, String.toList_append] at hfront
      rw [hfront] at hspells
      obtain ⟨body, -, htext, -, hlexeme⟩ := hspells.exists_quotable
      injection hlexeme with _ hcontent hplain
      rw [Leaf.text, hcontent, String.toList_ofList]
      exact hplain.symm
    · have hchars := List.all_eq_true.1 (Bool.and_eq_true_iff.1 hname).2
      have hnot : ∀ {c : Char}, Character.isNameChar c = false → c ∉ content.toList := by
        intro c hc hmem
        rw [hchars c hmem] at hc
        cases hc
      exact Expansion.any_expandable_eq_false (hnot (by decide +kernel)) (hnot (by decide +kernel))
  | number content expandable =>
    exact Expansion.any_expandable_eq_false (hspells.not_mem_of_number (by decide))
      (hspells.not_mem_of_number (by decide))
  | reference kind content => cases hexpandable

/-- A leaf that is not expanded holds no references. -/
theorem references_of_not_expandable (h : parse text policy = .ok condition)
    (hnode : node ∈ condition.root.leaves) (hexpandable : node.leaf.expandable = false) :
    Expansion.references node.leaf.text.toList = [] :=
  Expansion.references_eq_nil fun _ _ hpiece =>
    List.any_eq_false.1 (pieces_of_not_expandable h hnode hexpandable) _ hpiece rfl

/-- A string in which the opening of a reference occurs is allowed only if its kind is. -/
theorem allows_of_opens {content : String} {kind : ReferenceKind}
    (hallowed : policy.violation? (.text .string content true) = none)
    (hopens : Policy.opens kind content.toList = true) : policy.allows kind = true := by
  have hnone := List.find?_eq_none.1 hallowed kind (by cases kind <;> decide)
  simpa [hopens] using hnone

/-- A bare reference asks for nothing but itself. -/
theorem kind_of_asks_reference {kind : ReferenceKind} {content : String} {expandable : Bool}
    {front rest : List Char} {query : Query}
    (hspells : Lexeme.Spells front (.text (.reference kind) content expandable) rest)
    (hasks : Asks content.toList query) : query.kind = kind := by
  obtain ⟨group, hgroup, hcontent⟩ := hspells.exists_isGroup
  obtain ⟨kind', inner, hpiece, hparse⟩ := hasks
  rw [hcontent, Expansion.pieces_reference hgroup, List.mem_singleton] at hpiece
  cases hpiece
  exact Query.kind_of_parse hparse

/-- The kinds of reference that an expansion reaches are allowed, but for those in the transforms of
a bare reference to an item list. -/
theorem allows_of_reaches (h : parse text policy = .ok condition)
    (hnode : node ∈ condition.root.leaves) (hexpandable : node.leaf.expandable = true)
    {query : Query} (hreaches : Reaches node.leaf.text.toList query) :
    policy.allows query.kind = true ∨
      policy.itemLists = true ∧ ∃ list, node.leaf = .reference .itemList list := by
  obtain ⟨front, lexeme, rest, hspells, -, hdenotes, hallowed⟩ :=
    exists_spells_of_mem_leaves h hnode
  generalize node.leaf = leaf at hdenotes hexpandable hreaches
  cases hdenotes with
  | string content expandable =>
    obtain rfl : expandable = true := hexpandable
    exact .inl (allows_of_opens hallowed hreaches.opens)
  | number content => cases hexpandable
  | reference kind content =>
    have hkind : policy.allows kind = true := by simpa [Policy.violation?] using hallowed
    rcases hreaches.asks_or_exists with hasks | ⟨reference, hlist⟩
    · exact .inl (kind_of_asks_reference hspells hasks ▸ hkind)
    · obtain rfl : ReferenceKind.itemList = kind := kind_of_asks_reference hspells hlist
      exact .inr ⟨hkind, content, rfl⟩

/-- The kinds of reference that an expansion asks for are allowed. -/
theorem allows_of_asks (h : parse text policy = .ok condition)
    (hnode : node ∈ condition.root.leaves) (hexpandable : node.leaf.expandable = true)
    {query : Query} (hasks : Asks node.leaf.text.toList query) :
    policy.allows query.kind = true := by
  rcases allows_of_reaches h hnode hexpandable (.asked hasks) with hallows | ⟨hlists, list, hleaf⟩
  · exact hallows
  · obtain ⟨front, lexeme, rest, hspells, -, hdenotes, -⟩ := exists_spells_of_mem_leaves h hnode
    rw [hleaf] at hdenotes hasks
    cases hdenotes
    rw [kind_of_asks_reference hspells hasks]
    exact hlists

end Condition

end CondLang
