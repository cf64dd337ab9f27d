import CondLang.Condition.Policy
import CondLang.Proofs.Expansion.Pieces
import CondLang.Proofs.Reference.Parts

/-!
# What the expansion of a text may ask

A text asks for its references.  To answer for an item list, the texts of its transforms are
expanded, which may ask for more; `Reaches` is all that can be asked for on account of a text.
Whatever it is, its name stands in the text (`Reaches.name_isInfix`): what a reference is replaced
by is not searched for references.
-/

namespace CondLang

namespace Query

/-- The kind of reference that makes a query. -/
def kind : Query → ReferenceKind
  | property _ => .property
  | itemList _ => .itemList
  | metadata _ => .metadata

/-- The name of the property or item type that a query is about; metadata is that of an item which
is given. -/
def name? : Query → Option String
  | property expression => some expression
  | itemList reference => some reference.name
  | metadata _ => none

variable {k : ReferenceKind} {inner : List Char} {query : Query}

theorem kind_of_parse (h : parse k inner = .ok query) : query.kind = k := by
  cases k with
  | property => cases h; rfl
  | itemList =>
    unfold parse at h
    cases hparse : ItemListReference.parse (.ofList inner) with
    | error e => rw [hparse] at h; cases h
    | ok reference => rw [hparse] at h; cases h; rfl
  | metadata =>
    unfold parse at h
    cases hparse : MetadataReference.parse (.ofList inner) with
    | error e => rw [hparse] at h; cases h
    | ok reference => rw [hparse] at h; cases h; rfl

theorem ofChars?_of_parse {reference : ItemListReference}
    (h : parse k inner = .ok (itemList reference)) :
    ItemListReference.ofChars? inner = some reference := by
  obtain rfl : ReferenceKind.itemList = k := kind_of_parse h
  rw [parse, ItemListReference.parse, String.toList_ofList] at h
  cases hchars : ItemListReference.ofChars? inner with
  | none => rw [hchars] at h; cases h
  | some other => rw [hchars] at h; cases h; rfl

/-- The name that a reference is about stands between its parentheses. -/
theorem name_isInfix_of_parse {name : String} (h : parse k inner = .ok query)
    (hname : query.name? = some name) : name.toList <:+: inner := by
  cases query with
  | property expression =>
    cases hname
    obtain rfl : ReferenceKind.property = k := kind_of_parse h
    cases h
    rw [String.toList_ofList]
    exact Text.trimmed_isInfix inner
  | itemList reference =>
    cases hname
    exact (ItemListReference.of_ofChars? (ofChars?_of_parse h)).1
  | metadata => cases hname

end Query

namespace Expansion

variable {text : List Char} {query : Query}

/-- A text holds a reference that makes a query. -/
def Asks (text : List Char) (query : Query) : Prop :=
  ∃ kind inner, .reference kind inner ∈ pieces text ∧ Query.parse kind inner = .ok query

/-- A query is made by a text, or by the text of a transform of a list that is reached. -/
inductive Reaches (text : List Char) : Query → Prop where
  | asked {query : Query} (h : Asks text query) : Reaches text query
  | within {reference : ItemListReference} {inner : String} {query : Query}
      (hlist : Reaches text (.itemList reference))
      (htransform : .expression inner ∈ reference.transforms)
      (h : Asks inner.toList query) : Reaches text query

/-! ## Where references stand -/

theorem source_isInfix {piece : Piece} (h : piece ∈ pieces text) : piece.source <:+: text := by
  obtain ⟨before, behind, hpieces⟩ := List.append_of_mem h
  refine ⟨before.flatMap Piece.source, behind.flatMap Piece.source, ?_⟩
  rw [← flatMap_source_pieces text, hpieces, List.flatMap_append, List.flatMap_cons,
    List.append_assoc]

theorem inner_isInfix {kind : ReferenceKind} {inner : List Char}
    (h : .reference kind inner ∈ pieces text) : inner <:+: text :=
  List.IsInfix.trans ⟨[kind.sigil, '('], [')'], by simp [Piece.source]⟩ (source_isInfix h)

theorem Asks.name_isInfix {name : String} (h : Asks text query) (hname : query.name? = some name) :
    name.toList <:+: text := by
  obtain ⟨kind, inner, hpiece, hparse⟩ := h
  exact (Query.name_isInfix_of_parse hparse hname).trans (inner_isInfix hpiece)

theorem Asks.expression_isInfix {reference : ItemListReference} {inner : String}
    (h : Asks text (.itemList reference)) (htransform : .expression inner ∈ reference.transforms) :
    inner.toList <:+: text := by
  obtain ⟨kind, chars, hpiece, hparse⟩ := h
  have hreference := ItemListReference.of_ofChars? (Query.ofChars?_of_parse hparse)
  exact (hreference.2 inner htransform).trans (inner_isInfix hpiece)

/-- What is reached is asked by a part of the text. -/
theorem Reaches.exists_asks (h : Reaches text query) :
    ∃ part, part <:+: text ∧ Asks part query := by
  induction h with
  | asked h => exact ⟨text, List.infix_rfl, h⟩
  | within _ htransform h ih =>
    obtain ⟨part, hpart, hlist⟩ := ih
    exact ⟨_, (hlist.expression_isInfix htransform).trans hpart, h⟩

/-- The name that is asked for stands in the text. -/
theorem Reaches.name_isInfix {name : String} (h : Reaches text query)
    (hname : query.name? = some name) : name.toList <:+: text := by
  obtain ⟨part, hpart, hasks⟩ := h.exists_asks
  exact (hasks.name_isInfix hname).trans hpart

/-- A text that reaches more than it asks for itself asks for an item list. -/
theorem Reaches.asks_or_exists (h : Reaches text query) :
    Asks text query ∨ ∃ reference, Asks text (.itemList reference) := by
  induction h with
  | asked h => exact .inl h
  | within _ _ _ ih =>
    refine .inr ?_
    rcases ih with hlist | hlist
    · exact ⟨_, hlist⟩
    · exact hlist

/-! ## Openings -/

theorem opens_append (kind : ReferenceKind) (before rest : List Char) :
    Policy.opens kind (before ++ kind.sigil :: '(' :: rest) = true := by
  induction before with
  | nil => simp [Policy.opens]
  | cons c before ih => rw [List.cons_append, Policy.opens, ih, Bool.or_true]

/-- Whatever is reached, the opening of its reference occurs in the text. -/
theorem Reaches.opens (h : Reaches text query) : Policy.opens query.kind text = true := by
  obtain ⟨part, ⟨before, behind, rfl⟩, kind, inner, hpiece, hparse⟩ := h.exists_asks
  obtain ⟨before', behind', rfl⟩ := source_isInfix hpiece
  rw [Query.kind_of_parse hparse]
  have hopens := opens_append kind (before ++ before') (inner ++ [')'] ++ behind' ++ behind)
  simpa [Piece.source] using hopens

/-! ## Expansions that ask the same -/

theorem assemble_congr {env env' : Environment} {pieces : List Piece}
    (h : ∀ kind inner query, .reference kind inner ∈ pieces → Query.parse kind inner = .ok query →
      env.answer query = env'.answer query) : assemble env pieces = assemble env' pieces := by
  induction pieces with
  | nil => rfl
  | cons piece rest ih =>
    have hrest := ih fun kind inner query hpiece =>
      h kind inner query (List.mem_cons_of_mem _ hpiece)
    cases piece with
    | literal c => rw [assemble, assemble, hrest]
    | reference kind inner =>
      cases hparse : Query.parse kind inner with
      | error e => simp only [assemble, hparse]
      | ok query =>
        have hanswer := h kind inner query List.mem_cons_self hparse
        simp only [assemble, hparse, hanswer, hrest]

/-- An expansion depends on the answers to what the text asks. -/
theorem ofText_congr {env env' : Environment} {text : String}
    (h : ∀ query, Asks text.toList query → env.answer query = env'.answer query) :
    ofText env text = ofText env' text :=
  assemble_congr fun kind inner query hpiece hparse => h query ⟨kind, inner, hpiece, hparse⟩

end Expansion

end CondLang
