import CondLang.Proofs.Reference.Named
import CondLang.Proofs.Text.Classes

/-!
# References to item lists as they are written

```text
Written   := Blanks Name Step* Blanks Ending?
Step      := Blanks '->' Blanks Transform
Transform := Quoted | Name Blanks Group
Ending    := ',' Blanks Quoted Blanks
```

`Written` is a derivation of this grammar, with all its blanks: `text` is what it writes, and
`reference` is what it means, which forgets the blanks.  A text is read as a reference exactly if it
is written in one of these ways (`ofChars?_eq_some_iff`), and no text is written in two
(`Written.eq_of_text_eq`).

Each part is read off the front of a text exactly if the text starts with a way of writing it; this
decides what is left.  The same boundaries make the way unique.
-/

namespace CondLang

namespace Text

variable {p : Char → Bool} {c : Char} {front rest : List Char}

theorem dropBlanks_suffix (text : List Char) : dropBlanks text <:+ text :=
  List.dropWhile_suffix isBlank

/-- A text does not start in a class of characters. -/
def StartsOutside (p : Char → Bool) (text : List Char) : Prop := ∀ c ∈ text.head?, p c = false

theorem StartsOutside.nil : StartsOutside p [] := nofun

theorem StartsOutside.cons (h : p c = false) : StartsOutside p (c :: rest) := by
  intro d hd
  obtain rfl : c = d := Option.some.inj hd
  exact h

theorem StartsOutside.append (hfront : ∀ c ∈ front, p c = false) (hrest : StartsOutside p rest) :
    StartsOutside p (front ++ rest) := by
  cases front with
  | nil => exact hrest
  | cons c front => exact .cons (hfront c List.mem_cons_self)

end Text

namespace ItemListReference

open Character (isName isNameChar)
open Reference (IsGroup)
open Text (StartsOutside isBlank dropBlanks)

/-! ## The grammar -/

/-- Blanks, if any. -/
@[ext]
structure Blanks where
  text : List Char
  blank : ∀ c ∈ text, isBlank c = true

/-- A name. -/
@[ext]
structure Name where
  text : List Char
  valid : isName text = true

/-- What stands between two apostrophes. -/
@[ext]
structure Quoted where
  content : List Char
  unquoted : '\'' ∉ content

/-- Parentheses and what stands between them. -/
@[ext]
structure Group where
  text : List Char
  closes : IsGroup text

/-- No blanks. -/
def Blanks.none : Blanks := ⟨[], List.forall_mem_nil _⟩

/-- A quoted text with its apostrophes. -/
def Quoted.text (quoted : Quoted) : List Char := '\'' :: (quoted.content ++ ['\''])

/-- A transform as it is written. -/
inductive WrittenTransform where
  | expression (quoted : Quoted)
  | function (name : Name) (gap : Blanks) (arguments : Group)

/-- A transform and its arrow, with the blanks around that. -/
structure Step where
  before : Blanks
  behind : Blanks
  transform : WrittenTransform

/-- A separator and its comma. -/
@[ext]
structure Ending where
  before : Blanks
  separator : Quoted
  behind : Blanks

/-- A reference as it is written. -/
@[ext]
structure Written where
  before : Blanks
  name : Name
  steps : List Step
  gap : Blanks
  ending : Option Ending

namespace WrittenTransform

/-- The characters of a transform. -/
def text : WrittenTransform → List Char
  | expression quoted => quoted.text
  | function name gap arguments => name.text ++ (gap.text ++ arguments.text)

/-- The transform that is written; blanks at the ends of the arguments do not count. -/
def meaning : WrittenTransform → ItemTransform
  | expression quoted => .expression (.ofList quoted.content)
  | function name _ arguments =>
      .function (.ofList name.text) (.ofList (Text.trimmed (inside arguments.text)))

end WrittenTransform

/-- The characters of a step. -/
def Step.text (step : Step) : List Char :=
  step.before.text ++ '-' :: '>' :: (step.behind.text ++ step.transform.text)

/-- The characters of an ending. -/
def Ending.text (ending : Ending) : List Char :=
  ',' :: (ending.before.text ++ (ending.separator.text ++ ending.behind.text))

namespace Written

/-- What stands behind the steps and the blanks that follow them. -/
def tail (written : Written) : List Char := written.ending.elim [] Ending.text

/-- What stands behind the name. -/
def behind (written : Written) : List Char :=
  written.steps.flatMap Step.text ++ (written.gap.text ++ written.tail)

/-- The characters of a reference. -/
def text (written : Written) : List Char :=
  written.before.text ++ (written.name.text ++ written.behind)

/-- The reference that is written. -/
def reference (written : Written) : ItemListReference where
  name := .ofList written.name.text
  transforms := written.steps.map (·.transform.meaning)
  separator := written.ending.map (.ofList ·.separator.content)

end Written

/-! ## Reading the parts -/

variable {text left : List Char}

theorem Quoted.ne_quote (quoted : Quoted) : ∀ c ∈ quoted.content, (c != '\'') = true := by
  intro c hc
  rw [bne_iff_ne]
  rintro rfl
  exact quoted.unquoted hc

theorem Quoted.text_append (quoted : Quoted) (left : List Char) :
    quoted.text ++ left = '\'' :: (quoted.content ++ '\'' :: left) := by
  simp [Quoted.text]

theorem splitQuoted?_eq_some_iff {content : List Char} :
    splitQuoted? text = some (content, left) ↔
      ∃ quoted : Quoted, text = quoted.text ++ left ∧ content = quoted.content := by
  constructor
  · intro h
    unfold splitQuoted? at h
    split at h
    · next rest =>
      split at h
      · next quote behind hdrop =>
        cases h
        obtain ⟨hrest, hcontent, hquote⟩ :=
          Text.takeWhile_eq_and_dropWhile_eq_iff.1 ⟨rfl, hdrop⟩
        obtain rfl : quote = '\'' := by simpa using hquote quote rfl
        have hunquoted : '\'' ∉ rest.takeWhile (· != '\'') := fun hmem => by
          simpa using hcontent _ hmem
        exact ⟨⟨_, hunquoted⟩, by rw [Quoted.text_append, ← hrest], rfl⟩
      · cases h
    · cases h
  · rintro ⟨quoted, rfl, rfl⟩
    have hstop : StartsOutside (· != '\'') ('\'' :: left) := .cons rfl
    obtain ⟨htake, hdrop⟩ :=
      Text.takeWhile_eq_and_dropWhile_eq_iff.2 ⟨rfl, quoted.ne_quote, hstop⟩
    rw [Quoted.text_append, splitQuoted?, hdrop, htake]

theorem splitName?_eq_some_iff {name : List Char} :
    splitName? text = some (name, left) ↔
      isName name = true ∧ text = name ++ left ∧ StartsOutside isNameChar left := by
  rw [Character.isName_iff]
  constructor
  · intro h
    simp only [splitName?] at h
    split at h
    · cases h
    · next hne =>
      cases h
      obtain ⟨htext, hname, hleft⟩ := Text.takeWhile_eq_and_dropWhile_eq_iff.1 ⟨rfl, rfl⟩
      exact ⟨⟨by simpa using hne, hname⟩, htext, hleft⟩
  · rintro ⟨⟨hne, hname⟩, htext, hleft⟩
    obtain ⟨rfl, rfl⟩ := Text.takeWhile_eq_and_dropWhile_eq_iff.2 ⟨htext, hname, hleft⟩
    simp [splitName?, hne]

theorem dropBlanks_eq_iff :
    dropBlanks text = left ↔
      ∃ blanks : Blanks, text = blanks.text ++ left ∧ StartsOutside isBlank left := by
  constructor
  · intro h
    obtain ⟨htext, hblanks, hleft⟩ := Text.takeWhile_eq_and_dropWhile_eq_iff.1 ⟨rfl, h⟩
    exact ⟨⟨_, hblanks⟩, htext, hleft⟩
  · rintro ⟨blanks, htext, hleft⟩
    exact (Text.takeWhile_eq_and_dropWhile_eq_iff.2 ⟨htext, blanks.blank, hleft⟩).2

/-! ### How the parts start -/

theorem Blanks.startsOutside_append (blanks : Blanks) {rest : List Char}
    (h : StartsOutside isNameChar rest) : StartsOutside isNameChar (blanks.text ++ rest) := by
  refine StartsOutside.append (fun c hc => Bool.eq_false_iff.2 fun hname => ?_) h
  have hblank := blanks.blank c hc
  rw [Character.isBlank_of_isNameChar hname] at hblank
  cases hblank

theorem Name.exists_eq_cons (name : Name) :
    ∃ c rest, name.text = c :: rest ∧ isNameChar c = true := by
  obtain ⟨hne, hall⟩ := Character.isName_iff.1 name.valid
  obtain ⟨c, rest, htext⟩ := List.exists_cons_of_ne_nil hne
  exact ⟨c, rest, htext, hall c (htext ▸ List.mem_cons_self)⟩

theorem Name.isNameChar_of_mem (name : Name) : ∀ c ∈ name.text, isNameChar c = true :=
  (Character.isName_iff.1 name.valid).2

theorem Name.startsOutside_append (name : Name) (rest : List Char) :
    StartsOutside isBlank (name.text ++ rest) := by
  obtain ⟨c, others, htext, hc⟩ := name.exists_eq_cons
  rw [htext]
  exact .cons (Character.isBlank_of_isNameChar hc)

theorem Group.exists_eq_cons (group : Group) : ∃ rest, group.text = '(' :: rest := by
  obtain ⟨inner, htext⟩ := group.closes.exists_eq
  exact ⟨_, htext⟩

theorem Group.startsOutside_append (group : Group) {p : Char → Bool} (hp : p '(' = false)
    (rest : List Char) : StartsOutside p (group.text ++ rest) := by
  obtain ⟨others, htext⟩ := group.exists_eq_cons
  rw [htext]
  exact .cons hp

namespace WrittenTransform

theorem startsOutside_append (transform : WrittenTransform) (rest : List Char) :
    StartsOutside isBlank (transform.text ++ rest) := by
  cases transform with
  | expression quoted => exact .cons (by decide)
  | function name gap arguments =>
    rw [text, List.append_assoc]
    exact name.startsOutside_append _

/-- What stands behind the name of a function starts in none. -/
theorem startsOutside_behind (gap : Blanks) (arguments : Group) (rest : List Char) :
    StartsOutside isNameChar (gap.text ++ (arguments.text ++ rest)) :=
  gap.startsOutside_append (arguments.startsOutside_append (by decide +kernel) rest)

end WrittenTransform

/-! ### Transforms -/

theorem splitTransform?_of_written (transform : WrittenTransform) (left : List Char) :
    splitTransform? (transform.text ++ left) = some (transform.meaning, left) := by
  cases transform with
  | expression quoted =>
    have hsplit : splitQuoted? (quoted.text ++ left) = some (quoted.content, left) :=
      splitQuoted?_eq_some_iff.2 ⟨quoted, rfl, rfl⟩
    have hquote : (quoted.text ++ left).head? = some '\'' := rfl
    rw [WrittenTransform.text, splitTransform?, if_pos hquote, hsplit]
    rfl
  | function name gap arguments =>
    have hbehind := WrittenTransform.startsOutside_behind gap arguments left
    have hname : splitName? (name.text ++ (gap.text ++ (arguments.text ++ left))) =
        some (name.text, gap.text ++ (arguments.text ++ left)) :=
      splitName?_eq_some_iff.2 ⟨name.valid, rfl, hbehind⟩
    have hblanks : dropBlanks (gap.text ++ (arguments.text ++ left)) = arguments.text ++ left :=
      dropBlanks_eq_iff.2
        ⟨gap, rfl, arguments.startsOutside_append (by decide) left⟩
    have hgroup := arguments.closes.splitGroup?_append left
    have hquote : (name.text ++ (gap.text ++ (arguments.text ++ left))).head? ≠ some '\'' := by
      obtain ⟨c, rest, htext, hc⟩ := name.exists_eq_cons
      rw [htext]
      rintro hhead
      obtain rfl : c = '\'' := Option.some.inj hhead
      revert hc
      decide +kernel
    have hparen : (arguments.text ++ left).head? = some '(' := by
      obtain ⟨rest, htext⟩ := arguments.exists_eq_cons
      rw [htext]
      rfl
    rw [WrittenTransform.text, List.append_assoc, List.append_assoc, splitTransform?,
      if_neg hquote, hname]
    simp only [Option.bind_eq_bind, Option.bind_some, hblanks, if_pos hparen, hgroup]
    rfl

theorem exists_written_of_splitTransform? {transform : ItemTransform}
    (h : splitTransform? text = some (transform, left)) :
    ∃ written : WrittenTransform, text = written.text ++ left ∧ transform = written.meaning := by
  unfold splitTransform? at h
  split at h
  · obtain ⟨⟨content, behind⟩, hsplit, heq⟩ := Option.map_eq_some_iff.1 h
    cases heq
    obtain ⟨quoted, htext, rfl⟩ := splitQuoted?_eq_some_iff.1 hsplit
    exact ⟨.expression quoted, htext, rfl⟩
  · obtain ⟨⟨name, behind⟩, hname, h⟩ := Option.bind_eq_some_iff.1 h
    simp only at h
    split at h
    · next hparen =>
      obtain ⟨⟨group, after⟩, hgroup, heq⟩ := Option.bind_eq_some_iff.1 h
      cases heq
      obtain ⟨hisName, rfl, -⟩ := splitName?_eq_some_iff.1 hname
      obtain ⟨gap, hbehind, -⟩ := dropBlanks_eq_iff.1 (rfl : dropBlanks behind = _)
      refine ⟨.function ⟨name, hisName⟩ gap
        ⟨group, Reference.isGroup_of_splitGroup? hparen hgroup⟩, ?_, rfl⟩
      rw [WrittenTransform.text, List.append_assoc, List.append_assoc,
        Reference.splitGroup?_append hgroup, ← hbehind]
    · cases h

/-! ### Steps -/

/-- What the blanks behind the steps are followed by: no blank, and no arrow. -/
structure EndsSteps (text : List Char) : Prop where
  notBlank : StartsOutside isBlank text
  notArrow : ∀ rest, text ≠ '-' :: '>' :: rest

/-- An arrow is followed by a transform and the other steps. -/
theorem splitTransforms?_arrow {rest : List Char} (h : dropBlanks text = '-' :: '>' :: rest)
    (fuel : Nat) :
    splitTransforms? (fuel + 1) text =
      (splitTransform? (dropBlanks rest)).bind fun (transform, left) =>
        (splitTransforms? fuel left).map fun (transforms, left) =>
          (transform :: transforms, left) := by
  rw [splitTransforms?.eq_def, h]
  simp only [Option.bind_eq_bind, Option.pure_def, Option.map_eq_bind]
  rfl

/-- Without an arrow there are no more steps. -/
theorem splitTransforms?_plain (h : ∀ rest, dropBlanks text ≠ '-' :: '>' :: rest) (fuel : Nat) :
    splitTransforms? fuel text = some ([], dropBlanks text) := by
  rw [splitTransforms?.eq_def]
  split
  · next hdrop => exact absurd hdrop (h _)
  · rfl

theorem Step.text_append (step : Step) (rest : List Char) :
    step.text ++ rest =
      step.before.text ++ '-' :: '>' :: (step.behind.text ++ (step.transform.text ++ rest)) := by
  simp [Step.text]

theorem dropBlanks_step (step : Step) (rest : List Char) :
    dropBlanks (step.text ++ rest) =
      '-' :: '>' :: (step.behind.text ++ (step.transform.text ++ rest)) :=
  dropBlanks_eq_iff.2 ⟨step.before, step.text_append rest, .cons (by decide)⟩

theorem splitTransforms?_of_written {steps : List Step} {gap : Blanks} {fuel : Nat}
    (hleft : EndsSteps left)
    (hfuel : (steps.flatMap Step.text ++ (gap.text ++ left)).length ≤ fuel) :
    splitTransforms? fuel (steps.flatMap Step.text ++ (gap.text ++ left)) =
      some (steps.map (·.transform.meaning), left) := by
  induction steps generalizing fuel with
  | nil =>
    have hblanks : dropBlanks (gap.text ++ left) = left :=
      dropBlanks_eq_iff.2 ⟨gap, rfl, hleft.notBlank⟩
    have hplain := splitTransforms?_plain (by rw [hblanks]; exact hleft.notArrow) fuel
    rwa [hblanks] at hplain
  | cons step steps ih =>
    rw [List.flatMap_cons, List.append_assoc] at hfuel ⊢
    generalize steps.flatMap Step.text ++ (gap.text ++ left) = rest at hfuel ih ⊢
    have hlength : step.before.text.length + (step.behind.text.length +
        (step.transform.text.length + rest.length) + 1 + 1) ≤ fuel := by
      simpa [Step.text_append] using hfuel
    obtain ⟨fuel, rfl⟩ : ∃ less, fuel = less + 1 := ⟨fuel - 1, by omega⟩
    have hblanks : dropBlanks (step.behind.text ++ (step.transform.text ++ rest)) =
        step.transform.text ++ rest :=
      dropBlanks_eq_iff.2 ⟨step.behind, rfl, step.transform.startsOutside_append rest⟩
    rw [splitTransforms?_arrow (dropBlanks_step step rest), hblanks, splitTransform?_of_written,
      Option.bind_some]
    simp only [ih (show rest.length ≤ fuel by omega)]
    rfl

theorem exists_steps_of_splitTransforms? {fuel : Nat} {transforms : List ItemTransform}
    (hfuel : text.length ≤ fuel) (h : splitTransforms? fuel text = some (transforms, left)) :
    ∃ (steps : List Step) (gap : Blanks), text = steps.flatMap Step.text ++ (gap.text ++ left) ∧
      transforms = steps.map (·.transform.meaning) ∧ EndsSteps left := by
  induction fuel generalizing text transforms with
  | zero =>
    obtain rfl := List.eq_nil_of_length_eq_zero (Nat.le_zero.1 hfuel)
    cases h
    exact ⟨[], .none, rfl, rfl, .nil, nofun⟩
  | succ fuel ih =>
    by_cases harrow : ∃ rest, dropBlanks text = '-' :: '>' :: rest
    · obtain ⟨rest, hdrop⟩ := harrow
      rw [splitTransforms?_arrow hdrop] at h
      obtain ⟨⟨transform, behind⟩, hfirst, h⟩ := Option.bind_eq_some_iff.1 h
      obtain ⟨⟨others, after⟩, hothers, heq⟩ := Option.map_eq_some_iff.1 h
      cases heq
      obtain ⟨before, htext, -⟩ := dropBlanks_eq_iff.1 hdrop
      obtain ⟨between, hrest, -⟩ := dropBlanks_eq_iff.1 (Eq.refl (dropBlanks rest))
      obtain ⟨written, hwritten, rfl⟩ := exists_written_of_splitTransform? hfirst
      rw [hwritten] at hrest
      have hlength : behind.length ≤ fuel := by
        have hlengths := congrArg List.length htext
        rw [hrest] at hlengths
        simp only [List.length_append, List.length_cons] at hlengths
        omega
      obtain ⟨steps, gap, rfl, rfl, hleft⟩ := ih hlength hothers
      refine ⟨⟨before, between, written⟩ :: steps, gap, ?_, rfl, hleft⟩
      rw [List.flatMap_cons, List.append_assoc, Step.text_append, htext, hrest]
    · have hplain : ∀ rest, dropBlanks text ≠ '-' :: '>' :: rest := not_exists.1 harrow
      rw [splitTransforms?_plain hplain] at h
      cases h
      obtain ⟨gap, htext, hleft⟩ := dropBlanks_eq_iff.1 (Eq.refl (dropBlanks text))
      exact ⟨[], gap, htext, rfl, hleft, hplain⟩

/-! ### Endings -/

theorem endsSteps_ending (ending : Option Ending) : EndsSteps (ending.elim [] Ending.text) := by
  cases ending with
  | none => exact ⟨.nil, nofun⟩
  | some ending => exact ⟨.cons (by decide), nofun⟩

theorem ending?_eq_some_iff {separator : Option String} :
    ending? text = some separator ↔
      ∃ ending : Option Ending, text = ending.elim [] Ending.text ∧
        separator = ending.map (.ofList ·.separator.content) := by
  constructor
  · intro h
    unfold ending? at h
    split at h
    · cases h
      exact ⟨none, rfl, rfl⟩
    · next rest =>
      split at h
      · next content behind hsplit =>
        obtain ⟨before, hrest, -⟩ := dropBlanks_eq_iff.1 (rfl : dropBlanks rest = _)
        obtain ⟨quoted, hquoted, rfl⟩ := splitQuoted?_eq_some_iff.1 hsplit
        split at h
        · next hempty =>
          cases h
          obtain ⟨after, hbehind, -⟩ := dropBlanks_eq_iff.1 (List.isEmpty_iff.1 hempty)
          rw [List.append_nil] at hbehind
          exact ⟨some ⟨before, quoted, after⟩, by
            rw [Option.elim_some, Ending.text, ← hbehind, ← hquoted, ← hrest], rfl⟩
        · cases h
      · cases h
    · cases h
  · rintro ⟨_ | ending, rfl, rfl⟩
    · rfl
    · have hbefore : dropBlanks
          (ending.before.text ++ (ending.separator.text ++ ending.behind.text)) =
            ending.separator.text ++ ending.behind.text :=
        dropBlanks_eq_iff.2 ⟨ending.before, rfl, .cons (by decide)⟩
      have hsplit : splitQuoted? (ending.separator.text ++ ending.behind.text) =
          some (ending.separator.content, ending.behind.text) :=
        splitQuoted?_eq_some_iff.2 ⟨ending.separator, rfl, rfl⟩
      have hbehind : dropBlanks ending.behind.text = [] :=
        dropBlanks_eq_iff.2 ⟨ending.behind, (List.append_nil _).symm, .nil⟩
      rw [Option.elim_some, Ending.text, ending?, hbefore, hsplit]
      simp only [hbehind]
      rfl

/-! ## Whole references -/

namespace Written

/-- What stands behind the name starts in no name. -/
theorem startsOutside_behind (written : Written) : StartsOutside isNameChar written.behind := by
  rcases written with ⟨before, name, _ | ⟨step, steps⟩, gap, ending⟩
  · refine gap.startsOutside_append ?_
    cases ending with
    | none => exact .nil
    | some ending => exact .cons (by decide +kernel)
  · rw [behind, List.flatMap_cons, List.append_assoc, Step.text_append]
    exact step.before.startsOutside_append (.cons (by decide +kernel))

end Written

/-- A name is read up to the first character that may be part of none. -/
theorem ofChars?_name (before : Blanks) (name : Name) (h : StartsOutside isNameChar left) :
    ofChars? (before.text ++ (name.text ++ left)) =
      (splitTransforms? left.length left).bind fun (transforms, left) =>
        (ending? left).map (⟨.ofList name.text, transforms, ·⟩) := by
  have hblanks : dropBlanks (before.text ++ (name.text ++ left)) = name.text ++ left :=
    dropBlanks_eq_iff.2 ⟨before, rfl, name.startsOutside_append left⟩
  have hname : splitName? (name.text ++ left) = some (name.text, left) :=
    splitName?_eq_some_iff.2 ⟨name.valid, rfl, h⟩
  rw [ofChars?, hblanks, hname]
  simp only [Option.bind_eq_bind, Option.bind_some, Option.pure_def, Option.map_eq_bind]
  rfl

/-- The characters of a reference are read as what they mean, and no others are read. -/
theorem ofChars?_eq_some_iff {reference : ItemListReference} :
    ofChars? text = some reference ↔
      ∃ written : Written, written.text = text ∧ written.reference = reference := by
  constructor
  · intro h
    obtain ⟨⟨name, behind⟩, hname, h⟩ := Option.bind_eq_some_iff.1 h
    obtain ⟨⟨transforms, left⟩, htransforms, h⟩ := Option.bind_eq_some_iff.1 h
    obtain ⟨separator, hending, heq⟩ := Option.bind_eq_some_iff.1 h
    cases heq
    obtain ⟨before, htext, -⟩ := dropBlanks_eq_iff.1 (Eq.refl (dropBlanks text))
    obtain ⟨hisName, happend, -⟩ := splitName?_eq_some_iff.1 hname
    obtain ⟨steps, gap, rfl, rfl, -⟩ :=
      exists_steps_of_splitTransforms? (Nat.le_refl _) htransforms
    obtain ⟨ending, rfl, rfl⟩ := ending?_eq_some_iff.1 hending
    exact ⟨⟨before, ⟨name, hisName⟩, steps, gap, ending⟩, by rw [htext, happend]; rfl, rfl⟩
  · rintro ⟨written, rfl, rfl⟩
    have htransforms : splitTransforms? written.behind.length written.behind =
        some (written.steps.map (·.transform.meaning), written.tail) :=
      splitTransforms?_of_written (endsSteps_ending written.ending) (Nat.le_refl _)
    have hending : ending? written.tail = some (written.ending.map (.ofList ·.separator.content)) :=
      ending?_eq_some_iff.2 ⟨written.ending, rfl, rfl⟩
    rw [Written.text, ofChars?_name _ _ written.startsOutside_behind, htransforms]
    simp only [Option.bind_some, hending]
    rfl

end ItemListReference

end CondLang
