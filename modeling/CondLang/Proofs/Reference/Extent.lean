import CondLang.Reference.Extent

/-!
# What is behind a reference does not matter to it

Where the group of a reference ends is decided by the characters of the group alone.  So a reference
that was split off one text is split off every text that starts with it (`front_eq_closed_iff`).
-/

namespace CondLang

namespace Reference

variable {depth : Nat} {quote : Option Char} {text group left : List Char} {kind : ReferenceKind}

/-- A group ends with a parenthesis. -/
theorem exists_concat_of_closeFrom (h : closeFrom depth quote text = some (group, left)) :
    ∃ inner, group = inner ++ [')'] := by
  induction text generalizing depth quote group left with
  | nil => simp [closeFrom] at h
  | cons c rest ih =>
    cases quote with
    | some q =>
      simp only [closeFrom, Option.map_eq_some_iff] at h
      obtain ⟨⟨tail, after⟩, htail, heq⟩ := h
      cases heq
      obtain ⟨inner, rfl⟩ := ih htail
      exact ⟨c :: inner, rfl⟩
    | none =>
      simp only [closeFrom] at h
      split at h
      · next hcloses =>
        cases h
        exact ⟨[], by rw [hcloses.1]; rfl⟩
      · simp only [Option.map_eq_some_iff] at h
        obtain ⟨⟨tail, after⟩, htail, heq⟩ := h
        cases heq
        obtain ⟨inner, rfl⟩ := ih htail
        exact ⟨c :: inner, rfl⟩

/-- What is left behind a group may be exchanged. -/
theorem closeFrom_exchange (h : closeFrom depth quote (group ++ left) = some (group, left))
    (left' : List Char) : closeFrom depth quote (group ++ left') = some (group, left') := by
  induction group generalizing depth quote with
  | nil =>
    obtain ⟨inner, hinner⟩ := exists_concat_of_closeFrom h
    simp at hinner
  | cons c group ih =>
    cases quote with
    | some q =>
      simp only [List.cons_append, closeFrom, Option.map_eq_some_iff] at h ⊢
      obtain ⟨⟨tail, after⟩, htail, heq⟩ := h
      cases heq
      exact ⟨(tail, left'), ih htail, rfl⟩
    | none =>
      simp only [List.cons_append, closeFrom] at h ⊢
      split at h
      · next hcloses =>
        rw [if_pos hcloses]
        cases group with
        | nil => rfl
        | cons => simp at h
      · next hopen =>
        rw [if_neg hopen]
        simp only [Option.map_eq_some_iff] at h ⊢
        obtain ⟨⟨tail, after⟩, htail, heq⟩ := h
        cases heq
        exact ⟨(tail, left'), ih htail, rfl⟩

/-- A text that is one group: it starts with a parenthesis, and ends where that one is closed. -/
structure IsGroup (group : List Char) : Prop where
  head : group.head? = some '('
  split : splitGroup? group = some (group, [])

theorem IsGroup.splitGroup?_append (h : IsGroup group) (left : List Char) :
    splitGroup? (group ++ left) = some (group, left) := by
  have hsplit : splitGroup? (group ++ []) = some (group, []) := by
    rw [List.append_nil]
    exact h.split
  exact closeFrom_exchange hsplit left

/-- What is split off behind a parenthesis is a group. -/
theorem isGroup_of_splitGroup? (hhead : text.head? = some '(')
    (h : splitGroup? text = some (group, left)) : IsGroup group := by
  have happend := Reference.splitGroup?_append h
  refine ⟨?_, ?_⟩
  · obtain ⟨inner, rfl⟩ := exists_concat_of_closeFrom h
    rw [← happend] at hhead
    cases inner <;> exact hhead
  · rw [← happend] at h
    have hexchanged := closeFrom_exchange h []
    rwa [List.append_nil] at hexchanged

/-- The parentheses of a group are two, with the text of the reference between them. -/
theorem IsGroup.exists_eq (h : IsGroup group) : ∃ inner, group = '(' :: (inner ++ [')']) := by
  obtain ⟨inner, hinner⟩ := exists_concat_of_closeFrom h.split
  have hhead := h.head
  rw [hinner] at hhead ⊢
  cases inner with
  | nil => simp at hhead
  | cons c inner =>
    simp only [List.cons_append, List.head?_cons, Option.some.injEq] at hhead
    exact ⟨inner, by rw [hhead]; rfl⟩

/-! ## The front of a text -/

theorem front_eq_closed_iff :
    front text = .closed kind group left ↔
      IsGroup group ∧ text = kind.sigil :: (group ++ left) := by
  constructor
  · intro h
    refine ⟨?_, by rw [← front_append h]; rfl⟩
    unfold front at h
    split at h
    · next hopening =>
      obtain ⟨rest, rfl⟩ := eq_cons_of_opening? hopening
      split at h
      · next hsplit =>
        cases h
        exact isGroup_of_splitGroup? rfl hsplit
      · cases h
    · cases h
  · intro h
    rcases h with ⟨hgroup, rfl⟩
    obtain ⟨inner, hinner⟩ := hgroup.exists_eq
    have hopening : opening? (kind.sigil :: (group ++ left)) = some kind := by
      simp [hinner, opening?]
    simp only [front, hopening, List.drop_succ_cons, List.drop_zero,
      hgroup.splitGroup?_append left]

theorem front_eq_plain_iff : front text = .plain ↔ opening? text = none := by
  unfold front
  split
  · next hopening =>
    rw [hopening]
    split <;> simp
  · next hopening => simp [hopening]

/-- Whether a reference opens at a character depends on the next one only. -/
theorem opening?_cons_eq_none_iff {c : Char} {rest : List Char} :
    opening? (c :: rest) = none ↔
      (rest.head? = some '(' → ReferenceKind.ofSigil? c = none) := by
  unfold opening?
  split
  · next h =>
    cases h
    simp
  · next h =>
    simp only [true_iff]
    intro hhead
    cases rest with
    | nil => simp at hhead
    | cons d rest =>
      cases hhead
      exact absurd rfl (h c rest)

end Reference

end CondLang
