import CondLang.Proofs.Reference.Written

/-!
# References to item lists are unambiguous

No text is written in two ways (`Written.eq_of_text_eq`).  The parts of a reference are told apart
by the characters that they start with: where a run of blanks or a name ends, none of its class
follows, a quoted text ends at its first apostrophe, and a group at the parenthesis that closes it.
So two ways to write a text agree part by part, from left to right.
-/

namespace CondLang

namespace Text

variable {p : Char → Bool} {front front' rest rest' : List Char}

/-- A text is cut in one way only into a part in a class and a rest that does not start in it. -/
theorem eq_of_append_eq_append (h : front ++ rest = front' ++ rest')
    (hfront : ∀ c ∈ front, p c = true) (hfront' : ∀ c ∈ front', p c = true)
    (hrest : StartsOutside p rest) (hrest' : StartsOutside p rest') :
    front = front' ∧ rest = rest' := by
  obtain ⟨htake, hdrop⟩ := takeWhile_eq_and_dropWhile_eq_iff.2 ⟨rfl, hfront, hrest⟩
  obtain ⟨htake', hdrop'⟩ := takeWhile_eq_and_dropWhile_eq_iff.2 ⟨h, hfront', hrest'⟩
  exact ⟨htake.symm.trans htake', hdrop.symm.trans hdrop'⟩

end Text

namespace ItemListReference

open Character (isNameChar)
open Text (StartsOutside isBlank)

theorem Blanks.eq_of_append {blanks blanks' : Blanks} {rest rest' : List Char}
    (h : blanks.text ++ rest = blanks'.text ++ rest') (hrest : StartsOutside isBlank rest)
    (hrest' : StartsOutside isBlank rest') : blanks = blanks' ∧ rest = rest' :=
  (Text.eq_of_append_eq_append h blanks.blank blanks'.blank hrest hrest').imp_left Blanks.ext

theorem Name.eq_of_append {name name' : Name} {rest rest' : List Char}
    (h : name.text ++ rest = name'.text ++ rest') (hrest : StartsOutside isNameChar rest)
    (hrest' : StartsOutside isNameChar rest') : name = name' ∧ rest = rest' :=
  (Text.eq_of_append_eq_append h name.isNameChar_of_mem name'.isNameChar_of_mem hrest
    hrest').imp_left Name.ext

theorem Quoted.eq_of_append {quoted quoted' : Quoted} {rest rest' : List Char}
    (h : quoted.text ++ rest = quoted'.text ++ rest') : quoted = quoted' ∧ rest = rest' := by
  rw [text_append, text_append, List.cons.injEq] at h
  obtain ⟨hcontent, hrest⟩ := Text.eq_of_append_eq_append h.2 quoted.ne_quote quoted'.ne_quote
    (.cons rfl) (.cons rfl)
  exact ⟨Quoted.ext hcontent, (List.cons.inj hrest).2⟩

theorem Group.eq_of_append {group group' : Group} {rest rest' : List Char}
    (h : group.text ++ rest = group'.text ++ rest') : group = group' ∧ rest = rest' := by
  have hsplit := group.closes.splitGroup?_append rest
  rw [h, group'.closes.splitGroup?_append rest', Option.some.injEq, Prod.mk.injEq] at hsplit
  exact ⟨Group.ext hsplit.1.symm, hsplit.2.symm⟩

/-- A name does not start with an apostrophe. -/
theorem Name.append_ne_quoted (name : Name) (quoted : Quoted) (rest rest' : List Char) :
    name.text ++ rest ≠ quoted.text ++ rest' := by
  obtain ⟨c, others, htext, hc⟩ := name.exists_eq_cons
  rw [htext, Quoted.text_append]
  intro h
  obtain ⟨rfl, -⟩ := List.cons.inj h
  revert hc
  decide +kernel

theorem WrittenTransform.eq_of_append {transform transform' : WrittenTransform}
    {rest rest' : List Char} (h : transform.text ++ rest = transform'.text ++ rest') :
    transform = transform' ∧ rest = rest' := by
  cases transform with
  | expression quoted =>
    cases transform' with
    | expression quoted' =>
      obtain ⟨rfl, hrest⟩ := Quoted.eq_of_append h
      exact ⟨rfl, hrest⟩
    | function name' gap' arguments' =>
      rw [text, text, List.append_assoc] at h
      exact absurd h.symm (name'.append_ne_quoted quoted _ _)
  | function name gap arguments =>
    cases transform' with
    | expression quoted' =>
      rw [text, text, List.append_assoc] at h
      exact absurd h (name.append_ne_quoted quoted' _ _)
    | function name' gap' arguments' =>
      rw [text, text, List.append_assoc, List.append_assoc, List.append_assoc,
        List.append_assoc] at h
      obtain ⟨rfl, hbehind⟩ := Name.eq_of_append h (startsOutside_behind gap arguments rest)
        (startsOutside_behind gap' arguments' rest')
      obtain ⟨rfl, hgroup⟩ := Blanks.eq_of_append hbehind
        (arguments.startsOutside_append (by decide) rest)
        (arguments'.startsOutside_append (by decide) rest')
      obtain ⟨rfl, hrest⟩ := Group.eq_of_append hgroup
      exact ⟨rfl, hrest⟩

theorem Step.eq_of_append {step step' : Step} {rest rest' : List Char}
    (h : step.text ++ rest = step'.text ++ rest') : step = step' ∧ rest = rest' := by
  obtain ⟨before, behind, transform⟩ := step
  obtain ⟨before', behind', transform'⟩ := step'
  rw [text_append, text_append] at h
  obtain ⟨rfl, harrow⟩ := Blanks.eq_of_append h (.cons (by decide)) (.cons (by decide))
  obtain ⟨rfl, htransform⟩ := Blanks.eq_of_append (List.cons.inj (List.cons.inj harrow).2).2
    (transform.startsOutside_append rest) (transform'.startsOutside_append rest')
  obtain ⟨rfl, hrest⟩ := WrittenTransform.eq_of_append htransform
  exact ⟨rfl, hrest⟩

theorem steps_eq_of_append {steps steps' : List Step} {gap gap' : Blanks} {left left' : List Char}
    (h : steps.flatMap Step.text ++ (gap.text ++ left) =
      steps'.flatMap Step.text ++ (gap'.text ++ left'))
    (hleft : EndsSteps left) (hleft' : EndsSteps left') :
    steps = steps' ∧ gap = gap' ∧ left = left' := by
  -- No step goes on where the other text has none.
  have hnone : ∀ {step : Step} {rest : List Char} {gap : Blanks} {left : List Char},
      EndsSteps left → step.text ++ rest ≠ gap.text ++ left := by
    intro step rest gap left hleft h
    rw [Step.text_append] at h
    obtain ⟨-, h⟩ := Blanks.eq_of_append h (.cons (by decide)) hleft.notBlank
    exact hleft.notArrow _ h.symm
  induction steps generalizing steps' with
  | nil =>
    cases steps' with
    | nil =>
      exact ⟨rfl, Blanks.eq_of_append h hleft.notBlank hleft'.notBlank⟩
    | cons step' steps' =>
      rw [List.flatMap_cons, List.append_assoc] at h
      exact absurd h.symm (hnone hleft)
  | cons step steps ih =>
    cases steps' with
    | nil =>
      rw [List.flatMap_cons, List.append_assoc] at h
      exact absurd h (hnone hleft')
    | cons step' steps' =>
      rw [List.flatMap_cons, List.flatMap_cons, List.append_assoc, List.append_assoc] at h
      obtain ⟨rfl, hothers⟩ := Step.eq_of_append h
      obtain ⟨rfl, hrest⟩ := ih hothers
      exact ⟨rfl, hrest⟩

theorem ending_eq_of_text {ending ending' : Option Ending}
    (h : ending.elim [] Ending.text = ending'.elim [] Ending.text) : ending = ending' := by
  rcases ending with _ | ⟨before, separator, behind⟩ <;>
    rcases ending' with _ | ⟨before', separator', behind'⟩
  · rfl
  · cases h
  · cases h
  · obtain ⟨hbefore, hquoted⟩ := Blanks.eq_of_append (List.cons.inj h).2 (.cons (by decide))
      (.cons (by decide))
    obtain ⟨hseparator, hbehind⟩ := Quoted.eq_of_append hquoted
    exact congrArg some (Ending.ext hbefore hseparator (Blanks.ext hbehind))

/-- No text is written in two ways. -/
theorem Written.eq_of_text_eq {written written' : Written} (h : written.text = written'.text) :
    written = written' := by
  obtain ⟨hbefore, h⟩ := Blanks.eq_of_append h (written.name.startsOutside_append _)
    (written'.name.startsOutside_append _)
  obtain ⟨hname, h⟩ := Name.eq_of_append h written.startsOutside_behind
    written'.startsOutside_behind
  obtain ⟨hsteps, hgap, h⟩ := steps_eq_of_append h (endsSteps_ending written.ending)
    (endsSteps_ending written'.ending)
  exact Written.ext hbefore hname hsteps hgap (ending_eq_of_text h)

end ItemListReference

end CondLang
