import CondLang.Project.Answers

/-!
# Entries that are the first of their class

`Distinct()` goes over a list once and keeps the keys that it has seen.  What it leaves is the first
entry of every class of entries whose texts are the same in lower case (`distinctFrom_nil`), each
with the item that it came from.  No two of them are of one class (`pairwise_distinctFrom`), so a
second time nothing is dropped (`distinctFrom_distinctFrom`).
-/

namespace CondLang

section Firsts

variable {α β γ : Type} [DecidableEq γ]

/-- Whether an element at a position of a list has none of the same key in front of it. -/
def comesFirst (key : α → γ) (list : List α) (place : α × Nat) : Bool :=
  (list.take place.2).all (key · ≠ key place.1)

/-- The elements of a list that are the first of their key. -/
def firstOfEach (key : α → γ) (list : List α) : List α :=
  (list.zipIdx.filter (comesFirst key list)).map Prod.fst

/-- Keys may be taken of what the elements are mapped to. -/
theorem map_firstOfEach (key : β → γ) (f : α → β) (list : List α) :
    (firstOfEach (key ∘ f) list).map f = firstOfEach key (list.map f) := by
  have hplace : comesFirst key (list.map f) ∘ Prod.map f id = comesFirst (key ∘ f) list := by
    funext place
    simp only [comesFirst, Function.comp_apply, ← List.map_take, List.all_map]
    rfl
  simp only [firstOfEach, List.zipIdx_map, List.filter_map, List.map_map, hplace]
  rfl

end Firsts

namespace Project

/-- The key of an entry, by which it is told apart from others. -/
def entryKey (entry : ListEntry) : String := Text.lowercase entry.text

variable {seen : List String} {entries : List ListEntry} {entry : ListEntry}

theorem distinctFrom_cons_of_mem (h : entryKey entry ∈ seen) (rest : List ListEntry) :
    distinctFrom seen (entry :: rest) = distinctFrom seen rest := by
  rw [distinctFrom]
  exact if_pos (List.contains_iff_mem.2 h)

theorem distinctFrom_cons_of_not_mem (h : entryKey entry ∉ seen) (rest : List ListEntry) :
    distinctFrom seen (entry :: rest) = entry :: distinctFrom (seen ++ [entryKey entry]) rest := by
  rw [distinctFrom]
  exact if_neg fun hmem => h (List.contains_iff_mem.1 hmem)

/-- Behind the entries whose keys have been seen, those stay that are the first of their class. -/
theorem distinctFrom_eq_filter (front rest : List ListEntry)
    (hseen : ∀ key, key ∈ seen ↔ key ∈ front.map entryKey) :
    distinctFrom seen rest =
      ((rest.zipIdx front.length).filter (comesFirst entryKey (front ++ rest))).map Prod.fst := by
  induction rest generalizing seen front with
  | nil => rfl
  | cons entry rest ih =>
    have hfirst : comesFirst entryKey (front ++ entry :: rest) (entry, front.length) = true ↔
        entryKey entry ∉ seen := by
      simp [comesFirst, hseen]
    have hnext : front ++ entry :: rest = (front ++ [entry]) ++ rest := by simp
    have hlength : front.length + 1 = (front ++ [entry]).length := by simp
    rw [List.zipIdx_cons]
    by_cases hmem : entryKey entry ∈ seen
    · have hmore : ∀ key, key ∈ seen ↔ key ∈ (front ++ [entry]).map entryKey := by
        intro key
        rw [List.map_append, List.mem_append, ← hseen key]
        refine ⟨.inl, fun h => h.elim id fun hkey => ?_⟩
        rwa [List.mem_singleton.1 hkey]
      rw [distinctFrom_cons_of_mem hmem, List.filter_cons_of_neg fun h => hfirst.1 h hmem,
        ih (front ++ [entry]) hmore, hlength, hnext]
    · have hmore : ∀ key, key ∈ seen ++ [entryKey entry] ↔
          key ∈ (front ++ [entry]).map entryKey := by
        intro key
        rw [List.map_append, List.mem_append, List.mem_append, hseen key]
        rfl
      rw [distinctFrom_cons_of_not_mem hmem, List.filter_cons_of_pos (hfirst.2 hmem),
        List.map_cons, ih (front ++ [entry]) hmore, hlength, hnext]

/-- The entries left are the first of each class. -/
theorem distinctFrom_nil (entries : List ListEntry) :
    distinctFrom [] entries = firstOfEach entryKey entries :=
  distinctFrom_eq_filter [] entries fun _ => Iff.rfl

theorem map_text_distinctFrom (entries : List ListEntry) :
    (distinctFrom [] entries).map (·.text) =
      firstOfEach Text.lowercase (entries.map (·.text)) := by
  rw [distinctFrom_nil]
  exact map_firstOfEach Text.lowercase (·.text) entries

theorem not_mem_of_mem_distinctFrom (h : entry ∈ distinctFrom seen entries) :
    entryKey entry ∉ seen := by
  induction entries generalizing seen with
  | nil => cases h
  | cons first rest ih =>
    by_cases hmem : entryKey first ∈ seen
    · rw [distinctFrom_cons_of_mem hmem] at h
      exact ih h
    · rw [distinctFrom_cons_of_not_mem hmem] at h
      rcases List.mem_cons.1 h with rfl | h
      · exact hmem
      · exact fun hseen => ih h (List.mem_append_left _ hseen)

/-- No two entries that are left are of one class. -/
theorem pairwise_distinctFrom (seen : List String) (entries : List ListEntry) :
    (distinctFrom seen entries).Pairwise fun a b => entryKey a ≠ entryKey b := by
  induction entries generalizing seen with
  | nil => exact .nil
  | cons first rest ih =>
    by_cases hmem : entryKey first ∈ seen
    · rw [distinctFrom_cons_of_mem hmem]
      exact ih seen
    · rw [distinctFrom_cons_of_not_mem hmem]
      refine .cons (fun other hother heq => ?_) (ih _)
      refine not_mem_of_mem_distinctFrom hother ?_
      rw [← heq]
      exact List.mem_append_right _ (List.mem_singleton_self _)

/-- Entries of different classes, none of which has been seen, are all left. -/
theorem distinctFrom_eq_self (hnew : ∀ entry ∈ entries, entryKey entry ∉ seen)
    (hpairwise : entries.Pairwise fun a b => entryKey a ≠ entryKey b) :
    distinctFrom seen entries = entries := by
  induction entries generalizing seen with
  | nil => rfl
  | cons first rest ih =>
    obtain ⟨hfirst, hrest⟩ := List.pairwise_cons.1 hpairwise
    obtain ⟨hmem, hmore⟩ := List.forall_mem_cons.1 hnew
    rw [distinctFrom_cons_of_not_mem hmem, ih (fun entry hentry hseen => ?_) hrest]
    rcases List.mem_append.1 hseen with hseen | hsame
    · exact hmore entry hentry hseen
    · exact hfirst entry hentry (List.mem_singleton.1 hsame).symm

theorem distinctFrom_distinctFrom (entries : List ListEntry) :
    distinctFrom [] (distinctFrom [] entries) = distinctFrom [] entries :=
  distinctFrom_eq_self (fun _ _ => List.not_mem_nil) (pairwise_distinctFrom [] entries)

end Project

end CondLang
