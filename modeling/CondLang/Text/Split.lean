/-!
# Splitting text

A text is split at every occurrence of a separator, or at the first one only.  Joining the parts
with the separator gives the text back.
-/

namespace CondLang.Text

/-- The parts of a text between the occurrences of a separator; one more than there are of these. -/
def splitOn (separator : Char) : List Char → List (List Char)
  | [] => [[]]
  | c :: rest =>
      if c = separator then [] :: splitOn separator rest
      else
        match splitOn separator rest with
        | part :: parts => (c :: part) :: parts
        | [] => [[c]]

/-- The parts of a text in front of the first separator and behind it, if there is one. -/
def splitOnce (separator : Char) : List Char → Option (List Char × List Char)
  | [] => none
  | c :: rest =>
      if c = separator then some ([], rest)
      else (splitOnce separator rest).map fun (before, behind) => (c :: before, behind)

variable {separator c : Char} {rest : List Char}

@[simp] theorem splitOn_nil : splitOn separator [] = [[]] := rfl

theorem splitOn_cons : splitOn separator (c :: rest) =
    if c = separator then [] :: splitOn separator rest
    else
      match splitOn separator rest with
      | part :: parts => (c :: part) :: parts
      | [] => [[c]] := rfl

@[simp] theorem splitOnce_nil : splitOnce separator [] = none := rfl

theorem splitOnce_cons : splitOnce separator (c :: rest) =
    if c = separator then some ([], rest)
    else (splitOnce separator rest).map fun (before, behind) => (c :: before, behind) := rfl

theorem splitOn_ne_nil (separator : Char) (text : List Char) : splitOn separator text ≠ [] := by
  cases text with
  | nil => exact List.cons_ne_nil _ _
  | cons c rest =>
    rw [splitOn_cons]
    split
    · exact List.cons_ne_nil _ _
    · cases splitOn separator rest <;> exact List.cons_ne_nil _ _

/-- The parts are those into which lists are cut. -/
theorem splitOn_eq (separator : Char) (text : List Char) :
    splitOn separator text = text.splitOn separator := by
  induction text with
  | nil => rfl
  | cons c rest ih =>
    rw [splitOn_cons, ih, List.splitOn, List.splitOn, List.splitOnP_cons_eq_if_modifyHead]
    simp only [beq_iff_eq]
    split
    · rfl
    · cases hsplit : rest.splitOnP (· == separator) with
      | nil => exact absurd (ih.trans hsplit) (splitOn_ne_nil separator rest)
      | cons part parts => rfl

/-- Parts without the separator are those of a text if the text is these parts, joined with it. -/
theorem splitOn_eq_iff {separator : Char} {text : List Char} {parts : List (List Char)}
    (hne : parts ≠ []) (hparts : ∀ part ∈ parts, separator ∉ part) :
    splitOn separator text = parts ↔ text = [separator].intercalate parts := by
  rw [splitOn_eq]
  constructor
  · rintro rfl
    exact (List.intercalate_splitOn separator).symm
  · rintro rfl
    exact List.splitOn_intercalate separator hparts hne

/-- Behind the first of several parts stands the separator. -/
theorem exists_of_splitOn_eq_cons_cons {separator : Char} {text part next : List Char}
    {parts : List (List Char)} (h : splitOn separator text = part :: next :: parts) :
    ∃ rest, text = part ++ separator :: rest ∧ splitOn separator rest = next :: parts := by
  induction text generalizing part with
  | nil => simp at h
  | cons c rest ih =>
    rw [splitOn_cons] at h
    split at h
    · next hsame =>
      obtain ⟨rfl, hrest⟩ := List.cons.inj h
      exact ⟨rest, by rw [hsame, List.nil_append], hrest⟩
    · cases hsplit : splitOn separator rest with
      | nil => exact absurd hsplit (splitOn_ne_nil separator rest)
      | cons first others =>
        rw [hsplit] at h
        obtain ⟨rfl, rfl⟩ := List.cons.inj h
        obtain ⟨behind, rfl, hbehind⟩ := ih hsplit
        exact ⟨behind, rfl, hbehind⟩

/-- A text with one part is that part. -/
theorem eq_of_splitOn_eq_singleton {separator : Char} {text part : List Char}
    (h : splitOn separator text = [part]) : text = part := by
  induction text generalizing part with
  | nil => simpa using h
  | cons c rest ih =>
    rw [splitOn_cons] at h
    split at h
    · exact absurd (List.cons.inj h).2 (splitOn_ne_nil separator rest)
    · cases hsplit : splitOn separator rest with
      | nil => exact absurd hsplit (splitOn_ne_nil separator rest)
      | cons first others =>
        rw [hsplit] at h
        obtain ⟨rfl, rfl⟩ := List.cons.inj h
        rw [ih hsplit]

/-- Each character of a text is the separator or stands in one of the parts. -/
theorem mem_part_of_mem (separator : Char) {text : List Char} {c : Char} (h : c ∈ text) :
    c = separator ∨ ∃ part ∈ splitOn separator text, c ∈ part := by
  induction text with
  | nil => cases h
  | cons d rest ih =>
    rw [splitOn_cons]
    split
    · next hsame =>
      rcases List.mem_cons.1 h with rfl | hrest
      · exact .inl hsame
      · refine (ih hrest).imp_right ?_
        rintro ⟨part, hpart, hc⟩
        exact ⟨part, List.mem_cons_of_mem _ hpart, hc⟩
    · cases hsplit : splitOn separator rest with
      | nil => exact absurd hsplit (splitOn_ne_nil separator rest)
      | cons first others =>
        rcases List.mem_cons.1 h with rfl | hrest
        · exact .inr ⟨_, List.mem_cons_self, List.mem_cons_self⟩
        · refine (ih hrest).imp_right ?_
          rintro ⟨part, hpart, hc⟩
          rw [hsplit] at hpart
          rcases List.mem_cons.1 hpart with rfl | hothers
          · exact ⟨_, List.mem_cons_self, List.mem_cons_of_mem _ hc⟩
          · exact ⟨part, List.mem_cons_of_mem _ hothers, hc⟩

/-- A text is split where a separator stands that none stands in front of. -/
theorem splitOnce_eq_some_iff {separator : Char} {text before behind : List Char} :
    splitOnce separator text = some (before, behind) ↔
      separator ∉ before ∧ before ++ separator :: behind = text := by
  induction text generalizing before with
  | nil => simp
  | cons c rest ih =>
    rw [splitOnce_cons]
    by_cases hsame : c = separator
    · subst hsame
      cases before <;> simp +contextual [eq_comm]
    · cases before with
      | nil => simp [hsame, Ne.symm hsame]
      | cons first others =>
        rw [if_neg hsame, Option.map_eq_some_iff]
        constructor
        · rintro ⟨⟨front, back⟩, hfound, hparts⟩
          cases hparts
          obtain ⟨hfresh, hwhole⟩ := ih.1 hfound
          refine ⟨fun hmem => ?_, congrArg _ hwhole⟩
          exact (List.mem_cons.1 hmem).elim (Ne.symm hsame) hfresh
        · rintro ⟨hfresh, hwhole⟩
          obtain ⟨rfl, htail⟩ := List.cons.inj hwhole
          exact ⟨_, ih.2 ⟨fun hmem => hfresh (List.mem_cons_of_mem _ hmem), htail⟩, rfl⟩

/-- The strings between the occurrences of a separator. -/
def splitText (separator : Char) (text : String) : List String :=
  (splitOn separator text.toList).map .ofList

end CondLang.Text
