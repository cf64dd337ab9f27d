import CondLang.Proofs.Requoted

/-!
# Policies and quotes

A policy looks at the kind of a bare reference and at nothing else, but it looks at every opening of
a reference in a string.  So a reference is allowed bare if its own kind is, and in quotes only if
the kinds of all references inside it are, too (`Condition.accepts_reference_iff`).  The quotes make
a difference for a reference that holds a forbidden one of another kind, such as the transform of an
item list that refers to a property.
-/

namespace CondLang

/-- A policy accepts a text as a condition. -/
def Policy.Accepts (policy : Policy) (text : String) : Prop :=
  ∃ condition, Condition.parse text policy = .ok condition

/-- A text is read as a single bare reference. -/
def ReferenceKind.Reads (kind : ReferenceKind) (text : String) : Prop :=
  ∃ span stop, Command.allTokens text = .ok [⟨.text (.reference kind) text true, span⟩, stop]

/-! ## Comparisons with the empty string -/

namespace Lexeme

theorem spells_empty (rest : List Char) : Spells ['\'', '\''] (.text .string "" false) rest := by
  have hspells : Spells ('\'' :: ([] ++ ['\''])) _ rest := .quoted .nil
  rw [Expansion.pieces_nil] at hspells
  exact hspells

end Lexeme

namespace Condition

/-- A comparison of a leaf with the empty string is accepted exactly if the leaf is allowed. -/
theorem accepts_compared_iff {text : String} {lexeme : Lexeme} {leaf : Leaf} {policy : Policy}
    (h : Lexeme.Spells text.toList lexeme " == ''".toList) (hdenotes : lexeme.Denotes leaf) :
    policy.Accepts (text ++ " == ''") ↔ policy.violation? lexeme = none := by
  have htext : text ++ " == ''" = text ++ " " ++ Relation.equal.symbol ++ " " ++ "''" := by
    simp only [String.append_assoc]
    rfl
  have hright : Lexeme.Spells "''".toList (.text .string "" false) [] := Lexeme.spells_empty []
  rw [htext]
  constructor
  · intro haccepts
    obtain ⟨left, sign, right, stop, htokens⟩ :=
      Lexeme.allTokens_comparison .equal h hdenotes.ne_endOfInput hright nofun
    obtain ⟨condition, hparse⟩ := haccepts
    obtain ⟨d, last, hlast, hyield, hallowed, -⟩ := exists_derivation_of_parse hparse
    have hmem : (⟨lexeme, left⟩ : Token) ∈ d.yield ++ [last] := by
      rw [← Except.ok.inj (htokens.symm.trans hyield)]
      exact List.mem_cons_self
    rcases List.mem_append.1 hmem with hmem | hmem
    · exact hallowed _ hmem
    · rw [← List.mem_singleton.1 hmem, Token.is, beq_iff_eq] at hlast
      exact absurd hlast hdenotes.ne_endOfInput
  · intro hviolation
    obtain ⟨condition, -, -, -, hparse, -⟩ :=
      parse_comparison .equal h hright hdenotes (.string "" false) hviolation rfl
    exact ⟨condition, hparse⟩

/-- A string that may need expansion is allowed if all kinds of reference that it opens are. -/
theorem violation?_string_eq_none_iff {policy : Policy} {text : String} :
    policy.violation? (.text .string text true) = none ↔
      ∀ kind, Policy.opens kind text.toList = true → policy.allows kind = true := by
  constructor
  · exact fun h kind hopens => allows_of_opens h hopens
  · intro h
    refine List.find?_eq_none.2 fun kind _ hforbidden => ?_
    rw [Bool.and_eq_true, Bool.not_eq_true'] at hforbidden
    rw [h kind hforbidden.2] at hforbidden
    cases hforbidden.1

theorem violation?_reference_eq_none_iff {policy : Policy} {kind : ReferenceKind} {text : String}
    {expandable : Bool} :
    policy.violation? (.text (.reference kind) text expandable) = none ↔
      policy.allows kind = true := by
  cases hallows : policy.allows kind <;> simp [Policy.violation?, hallows]

/-- A text that is a bare reference is a sigil and a group. -/
theorem exists_isGroup_of_reads {kind : ReferenceKind} {text : String} (h : kind.Reads text) :
    ∃ group, Reference.IsGroup group ∧ text.toList = kind.sigil :: group := by
  obtain ⟨span, stop, htokens⟩ := h
  cases Command.allTokens_eq_ok_iff.1 htokens with
  | step hread =>
    obtain ⟨blanks, spelling, hcuts⟩ := Cursor.next_eq_ok_iff.1 hread
    exact hcuts.spells.exists_isGroup

/-- A reference that is compared with the empty string is accepted bare exactly if its kind is
allowed, and in quotes exactly if all kinds of reference are that are opened anywhere in it.  So
what is accepted in quotes is accepted bare.  The converse fails exactly if the kind of the
reference is allowed and it holds another one that is forbidden. -/
theorem accepts_reference_iff (policy : Policy) {kind : ReferenceKind} {text : String}
    (hreads : kind.Reads text) :
    (policy.Accepts (text ++ " == ''") ↔ policy.allows kind = true) ∧
    (policy.Accepts ("'" ++ text ++ "' == ''") ↔
      ∀ other, Policy.opens other text.toList = true → policy.allows other = true) ∧
    (policy.Accepts ("'" ++ text ++ "' == ''") → policy.Accepts (text ++ " == ''")) ∧
    ((policy.Accepts (text ++ " == ''") ↔ policy.Accepts ("'" ++ text ++ "' == ''")) ↔
      ∀ other, Policy.opens other text.toList = true → policy.allows kind = true →
        policy.allows other = true) := by
  obtain ⟨group, hgroup, htext⟩ := exists_isGroup_of_reads hreads
  have hbare : policy.Accepts (text ++ " == ''") ↔ policy.allows kind = true := by
    have hspells : Lexeme.Spells (kind.sigil :: group) _ " == ''".toList := .reference hgroup
    rw [← htext] at hspells
    exact (accepts_compared_iff hspells (.reference kind _ true)).trans
      violation?_reference_eq_none_iff
  have hquoted : policy.Accepts ("'" ++ text ++ "' == ''") ↔
      ∀ other, Policy.opens other text.toList = true → policy.allows other = true := by
    have hspells : Lexeme.Spells ("'" ++ text ++ "'").toList (.text .string text true)
        " == ''".toList := by
      have hstring := Lexeme.spells_quoted_reference hgroup kind " == ''".toList
      rw [← htext, String.ofList_toList] at hstring
      simpa using hstring
    have hshape : "'" ++ text ++ "' == ''" = "'" ++ text ++ "'" ++ " == ''" :=
      String.toList_inj.1 (by simp)
    rw [hshape]
    exact (accepts_compared_iff hspells (.string text true)).trans violation?_string_eq_none_iff
  have hopens : Policy.opens kind text.toList = true := by
    obtain ⟨inner, rfl⟩ := hgroup.exists_eq
    rw [htext]
    exact Expansion.opens_append kind [] _
  refine ⟨hbare, hquoted, ?_, ?_⟩
  · rw [hbare, hquoted]
    exact fun h => h kind hopens
  · rw [hbare, hquoted]
    constructor
    · exact fun h other hother hkind => h.1 hkind other hother
    · exact fun h => ⟨fun hkind other hother => h other hother hkind, fun h => h kind hopens⟩

/-- A list with a transform that refers to a property. -/
theorem reads_transform : ReferenceKind.itemList.Reads "@(S->'$(A)')" :=
  ⟨⟨0, 12⟩, ⟨.symbol .endOfInput, 12, 12⟩, by decide +kernel⟩

/-- Where properties are forbidden, the transform of a list may refer to one, but not in quotes. -/
theorem accepts_reference_iff_transform :
    ReferenceKind.itemList.Reads "@(S->'$(A)')" ∧
      Policy.Accepts ⟨false, true, true⟩ ("@(S->'$(A)')" ++ " == ''") ∧
      ¬Policy.Accepts ⟨false, true, true⟩ ("'" ++ "@(S->'$(A)')" ++ "' == ''") := by
  obtain ⟨hbare, hquoted, -, -⟩ := accepts_reference_iff ⟨false, true, true⟩ reads_transform
  refine ⟨reads_transform, hbare.2 rfl, fun haccepts => ?_⟩
  have hallows := hquoted.1 haccepts .property (by decide +kernel)
  cases hallows

/-- It is not true that quotes make no difference to a policy. -/
theorem exists_accepts_bare_only :
    ¬∀ (policy : Policy) (kind : ReferenceKind) (text : String), kind.Reads text →
      (policy.Accepts (text ++ " == ''") ↔ policy.Accepts ("'" ++ text ++ "' == ''")) := by
  intro hall
  have hbare : ((parse ("@(S->'$(A)')" ++ " == ''") ⟨false, true, true⟩).toOption.map
      (·.nodeCount)) = some 3 := by decide +kernel
  have hquoted : (parse ("'" ++ "@(S->'$(A)')" ++ "' == ''") ⟨false, true, true⟩).toOption.map
      (·.nodeCount) = none := by decide +kernel
  obtain ⟨condition, hparse, -⟩ := exists_of_map_parse_eq_some hbare
  obtain ⟨other, hother⟩ := (hall _ _ _ reads_transform).1 ⟨condition, hparse⟩
  rw [hother] at hquoted
  cases hquoted

end Condition

end CondLang
