import CondLang.Text.Ascii
import Mathlib.Data.List.Induction

/-!
# Texts that come first

Of texts that differ in the case of ASCII letters only, the one that comes first may stand for all.
Such texts keep their order, no two of them are the same (`Text.pairwise_firsts`), and behind other
texts they do as well as all the texts do (`Text.firsts_append_firsts`).
-/

namespace CondLang.Text

theorem differs_of_same {a b c : String} (hsame : sameIgnoringAscii a b = true)
    (hdiffers : sameIgnoringAscii a c = false) : sameIgnoringAscii c b = false := by
  refine Bool.eq_false_iff.2 fun hother => ?_
  rw [sameIgnoringAscii_comm] at hother
  rw [sameIgnoringAscii_trans hsame hother] at hdiffers
  cases hdiffers

/-- The texts that do not come in any spelling before. -/
def firsts (texts : List String) : List String := texts.eraseDupsBy sameIgnoringAscii

/-- One more text comes first if it is none of those that did so before. -/
theorem firsts_concat (texts : List String) (text : String) :
    firsts (texts ++ [text]) =
      if (firsts texts).any (sameIgnoringAscii · text) then firsts texts
      else firsts texts ++ [text] := by
  -- The texts found so far are kept in reverse.
  have hloop : ∀ texts found : List String,
      List.eraseDupsBy.loop sameIgnoringAscii texts found = (texts.foldl (fun found text =>
        if found.any (sameIgnoringAscii text) then found else text :: found) found).reverse := by
    intro texts
    induction texts with
    | nil => exact fun _ => rfl
    | cons first rest ih =>
      intro found
      rw [List.eraseDupsBy.loop, List.foldl_cons]
      split
      · next hknown => rw [if_pos hknown, ih]
      · next hknown => rw [if_neg (Bool.eq_false_iff.1 hknown), ih]
  have hany (found : List String) :
      found.any (sameIgnoringAscii text) = found.any (sameIgnoringAscii · text) :=
    congrArg found.any (funext (sameIgnoringAscii_comm text))
  simp only [firsts, List.eraseDupsBy, hloop, List.foldl_append, List.foldl_cons, List.foldl_nil,
    List.any_reverse, hany, apply_ite List.reverse, List.reverse_cons]

/-- A text comes in some spelling if and only if it does so among those that come first. -/
theorem any_firsts (texts : List String) (text : String) :
    (firsts texts).any (sameIgnoringAscii · text) = texts.any (sameIgnoringAscii · text) := by
  induction texts using List.reverseRecOn with
  | nil => rfl
  | append_singleton texts last ih =>
    rw [firsts_concat, List.any_append, ← ih]
    split
    · next hlast =>
      obtain ⟨first, hfirst, hsame⟩ := List.any_eq_true.1 hlast
      cases hmore : sameIgnoringAscii last text with
      | false => simp [hmore]
      | true =>
        have hknown : (firsts texts).any (sameIgnoringAscii · text) = true :=
          List.any_eq_true.2 ⟨first, hfirst, sameIgnoringAscii_trans hsame hmore⟩
        rw [hknown, Bool.true_or]
    · exact List.any_append

theorem firsts_concat_of_any {texts : List String} {text : String}
    (h : texts.any (sameIgnoringAscii · text) = true) :
    firsts (texts ++ [text]) = firsts texts := by
  rw [firsts_concat, any_firsts, if_pos h]

theorem firsts_concat_of_not_any {texts : List String} {text : String}
    (h : texts.any (sameIgnoringAscii · text) = false) :
    firsts (texts ++ [text]) = firsts texts ++ [text] := by
  rw [firsts_concat, any_firsts, h]
  rfl

theorem firsts_sublist (texts : List String) : (firsts texts).Sublist texts := by
  induction texts using List.reverseRecOn with
  | nil => exact .slnil
  | append_singleton texts text ih =>
    rw [firsts_concat]
    split
    · exact ih.trans (List.sublist_append_left _ _)
    · exact ih.append (List.Sublist.refl _)

theorem firsts_ne_nil {texts : List String} (h : texts ≠ []) : firsts texts ≠ [] := by
  obtain ⟨text, htext⟩ := List.exists_mem_of_ne_nil texts h
  have hany : (firsts texts).any (sameIgnoringAscii · text) = true := by
    rw [any_firsts]
    exact List.any_eq_true.2 ⟨text, htext, sameIgnoringAscii_refl text⟩
  obtain ⟨first, hfirst, -⟩ := List.any_eq_true.1 hany
  exact List.ne_nil_of_mem hfirst

/-- No two texts that come first are the same. -/
theorem pairwise_firsts (texts : List String) :
    (firsts texts).Pairwise fun a b => sameIgnoringAscii a b = false := by
  induction texts using List.reverseRecOn with
  | nil => exact .nil
  | append_singleton texts text ih =>
    rw [firsts_concat]
    split
    · exact ih
    · next hnew =>
      refine List.pairwise_append.2 ⟨ih, List.pairwise_singleton _ _, fun a ha b hb => ?_⟩
      obtain rfl := List.mem_singleton.1 hb
      exact Bool.eq_false_iff.2 fun hsame => hnew (List.any_eq_true.2 ⟨a, ha, hsame⟩)

/-- Behind other texts, those of the texts that come first do as well as all of them. -/
theorem firsts_append_firsts (front texts : List String) :
    firsts (front ++ firsts texts) = firsts (front ++ texts) := by
  induction texts using List.reverseRecOn with
  | nil => rfl
  | append_singleton texts text ih =>
    rw [← List.append_assoc, firsts_concat texts]
    split
    · next hknown =>
      rw [any_firsts] at hknown
      rw [ih, firsts_concat_of_any (by rw [List.any_append, hknown, Bool.or_true])]
    · rw [← List.append_assoc, firsts_concat, ih, ← firsts_concat]

/-- A text several times in a row comes first as it does alone. -/
theorem firsts_append_repeated (front : List String) (text : String) {others : List String}
    (hne : others ≠ []) (h : ∀ other ∈ others, other = text) :
    firsts (front ++ others) = firsts (front ++ [text]) := by
  induction others using List.reverseRecOn with
  | nil => exact absurd rfl hne
  | append_singleton others last ih =>
    obtain ⟨hothers, hlast⟩ := List.forall_mem_append.1 h
    obtain rfl := hlast last (List.mem_singleton_self last)
    cases others with
    | nil => rfl
    | cons other rest =>
      have hknown : (front ++ other :: rest).any (sameIgnoringAscii · last) = true := by
        rw [hothers other List.mem_cons_self]
        simp
      rw [← List.append_assoc, firsts_concat_of_any hknown]
      exact ih (List.cons_ne_nil _ _) hothers

end CondLang.Text
