import CondLang.Evaluation
import CondLang.Proofs.Parser.Leaves
import CondLang.Proofs.Text.PercentEncoding

/-!
# Leaves that need no expansion

Whether a string may hold references or escapes is found out while it is read, and much later an
evaluation takes a leaf that holds none as it is written.  That is sound, as the text of such a leaf
expands to itself without a question, and the mark errs on the safe side only: a string is marked
exactly if a percent sign or the opening of a reference occurs in it
(`Condition.expanded_eq_expand`).
-/

namespace CondLang

open Policy (opens)

/-! ## Openings -/

namespace Policy

variable {kind : ReferenceKind} {c : Char} {text rest : List Char}

theorem opens_cons_iff : opens kind (c :: rest) = true ↔
    c = kind.sigil ∧ rest.head? = some '(' ∨ opens kind rest = true := by
  rw [opens, Bool.or_eq_true, Bool.and_eq_true, beq_iff_eq, beq_iff_eq]

/-- What opens a reference holds a parenthesis. -/
theorem mem_of_opens (h : opens kind text = true) : '(' ∈ text := by
  induction text with
  | nil => cases h
  | cons c rest ih =>
    rcases opens_cons_iff.1 h with ⟨-, hhead⟩ | hrest
    · exact List.mem_cons_of_mem _ (List.mem_of_mem_head? hhead)
    · exact List.mem_cons_of_mem _ (ih hrest)

/-- A text that starts with no opening has those of the rest. -/
theorem opens_cons_of_opening? (h : Reference.opening? (c :: rest) = none) :
    opens kind (c :: rest) = opens kind rest := by
  rw [Bool.eq_iff_iff, opens_cons_iff, or_iff_right]
  rintro ⟨rfl, hhead⟩
  rw [Reference.opening?_cons_eq_none_iff, ReferenceKind.ofSigil?_sigil] at h
  cases h hhead

end Policy

/-! ## The mark of a string -/

namespace Lexeme

variable {front rest : List Char} {content : String} {expandable : Bool}

/-- Between quotes a text needs expansion exactly if a percent sign or an opening occurs in it. -/
theorem Quotable.any_expandable_iff {body : List Char} (h : Quotable body) :
    (Expansion.pieces body).any Piece.expandable = true ↔
      '%' ∈ body ∨ ∃ kind, opens kind body = true := by
  induction h with
  | nil => simp [Expansion.pieces_nil, opens]
  | @literal c body hc hopening _ ih =>
    simp only [Expansion.pieces_literal hopening, List.any_cons, Bool.or_eq_true, ih,
      Policy.opens_cons_of_opening? hopening, List.mem_cons, Piece.expandable, beq_iff_eq,
      eq_comm (a := c), or_assoc]
  | @reference kind group body hgroup _ _ =>
    obtain ⟨inner, rfl⟩ := hgroup.exists_eq
    refine iff_of_true ?_ (.inr ⟨kind, Policy.opens_cons_iff.2 (.inl ⟨rfl, rfl⟩)⟩)
    rw [Expansion.pieces_group hgroup, List.any_cons]
    rfl

/-- A string is marked as one that needs expansion exactly if a percent sign or an opening occurs in
it. -/
theorem Spells.expandable_iff (h : Spells front (.text .string content expandable) rest) :
    expandable = true ↔ '%' ∈ content.toList ∨ ∃ kind, opens kind content.toList = true := by
  generalize hlexeme : Lexeme.text .string content expandable = lexeme at h
  cases h with
  | @name c word rest hc hword =>
    rcases ofName_cases (.ofList (c :: word)) rest with ⟨s, -, heq⟩ | ⟨-, -, heq⟩ | heq <;>
      rw [heq] at hlexeme <;> cases hlexeme
    have hall : ∀ d ∈ c :: word, Character.isNameChar d = true :=
      List.forall_mem_cons.2 ⟨by rw [Character.isNameChar, hc, Bool.true_or], hword⟩
    have hnot : ∀ {d : Char}, Character.isNameChar d = false → d ∉ c :: word := by
      intro d hd hmem
      rw [hall d hmem] at hd
      cases hd
    rw [String.toList_ofList]
    refine iff_of_false Bool.false_ne_true ?_
    rintro (hpercent | ⟨kind, hopens⟩)
    · exact hnot (by decide +kernel) hpercent
    · exact hnot (by decide +kernel) (Policy.mem_of_opens hopens)
  | quoted hbody =>
    cases hlexeme
    rw [String.toList_ofList]
    exact hbody.any_expandable_iff
  | _ => cases hlexeme

end Lexeme

/-! ## Expanding what needs no expansion -/

/-- Pieces that all stand for their own characters ask nothing. -/
theorem Expansion.assemble_of_not_expandable (env : Environment) {pieces : List Piece}
    (h : pieces.any Piece.expandable = false) :
    assemble env pieces = ⟨[], .ok (pieces.flatMap Piece.source)⟩ := by
  induction pieces with
  | nil => rfl
  | cons piece rest ih =>
    rw [List.any_cons, Bool.or_eq_false_iff] at h
    cases piece with
    | literal c =>
      rw [assemble, ih h.2]
      rfl
    | reference kind inner => cases h.1

namespace Condition

variable {text : String} {policy : Policy} {condition : Condition} {node : LeafNode}

/-- A leaf that is not marked as one that needs expansion expands to its own text without asking
anything, and an evaluation takes that text as it is.  A string is marked exactly if a percent sign
or the opening of a reference occurs in it. -/
theorem expanded_of_not_expandable (h : parse text policy = .ok condition)
    (hnode : node ∈ condition.root.leaves) :
    (node.leaf.expandable = false → ∀ setting memo,
      Expansion.ofText setting.environment node.leaf.text = ⟨[], .ok node.leaf.text.toList⟩ ∧
        expand setting.environment node.leaf.text = .ok node.leaf.text ∧
        node.expanded setting memo = ⟨.ok node.leaf.text, memo, []⟩) ∧
    ∀ content expandable, node.leaf = .string content expandable →
      (expandable = true ↔
        '%' ∈ content.toList ∨ ∃ kind, opens kind content.toList = true) := by
  refine ⟨fun hplain setting memo => ?_, fun content expandable hleaf => ?_⟩
  · have hpieces := pieces_of_not_expandable h hnode hplain
    have hexpansion : Expansion.ofText setting.environment node.leaf.text =
        ⟨[], .ok node.leaf.text.toList⟩ := by
      rw [Expansion.ofText, Expansion.assemble_of_not_expandable _ hpieces,
        Expansion.flatMap_source_pieces]
    refine ⟨hexpansion, ?_, ?_⟩
    · rw [expand, hexpansion, Expansion.text, Except.map, String.ofList_toList,
        Text.unescape_of_not_mem (Expansion.not_mem_of_any_expandable hpieces)]
    · rw [LeafNode.expanded, if_neg (Bool.eq_false_iff.1 hplain), EvalM.pure_apply]
  · obtain ⟨front, lexeme, rest, hspells, -, hdenotes, -⟩ := exists_spells_of_mem_leaves h hnode
    rw [hleaf] at hdenotes
    cases hdenotes
    exact hspells.expandable_iff

/-- The argument of a call that holds a sigil and a parenthesis, but in the wrong order. -/
def misordered : LeafNode := ⟨⟨0, ⟨17, 22⟩, false⟩, .string "(@)" false⟩

/-- A percentage in quotes. -/
def percentage : LeafNode := ⟨⟨2, ⟨25, 30⟩, false⟩, .string "50%" true⟩

/-- A condition of both and a number. -/
def unmarked : Condition :=
  let number : LeafNode := ⟨⟨3, ⟨31, 35⟩, false⟩, .number "0x1F"⟩
  { text := "HasTrailingSlash('(@)')or'50%'>0x1F"
    root := .logical ⟨5, ⟨0, 35⟩, false⟩ .or
      (.call ⟨1, ⟨0, 23⟩, false⟩ "HasTrailingSlash" [misordered])
      (.comparison ⟨4, ⟨25, 35⟩, false⟩ .greater (.leaf percentage) (.leaf number))
    nodeCount := 6 }

theorem expanded_of_not_expandable_unmarked :
    parse unmarked.text .everything = .ok unmarked ∧ misordered ∈ unmarked.root.leaves ∧
      percentage ∈ unmarked.root.leaves ∧ misordered.leaf.expandable = false ∧
      (∀ setting memo, expand setting.environment "(@)" = .ok "(@)" ∧
        misordered.expanded setting memo = ⟨.ok "(@)", memo, []⟩) ∧
      '%' ∈ "50%".toList ∧ percentage.leaf.expandable = true := by
  have hparse : parse unmarked.text .everything = .ok unmarked := by decide +kernel
  have hmisordered : misordered ∈ unmarked.root.leaves := by decide
  have hpercentage : percentage ∈ unmarked.root.leaves := by decide
  have hpercent : '%' ∈ "50%".toList := by decide
  obtain ⟨hplain, -⟩ := expanded_of_not_expandable hparse hmisordered
  obtain ⟨-, hmark⟩ := expanded_of_not_expandable hparse hpercentage
  exact ⟨hparse, hmisordered, hpercentage, rfl, fun setting memo => (hplain rfl setting memo).2,
    hpercent, (hmark "50%" percentage.leaf.expandable rfl).2 (.inl hpercent)⟩

end Condition

end CondLang
