import CondLang.Proofs.Project.Transforms
import CondLang.Proofs.Text.Lowercase

/-!
# What `Distinct()` takes for the same

`Distinct()` keeps one of each class of texts that are the same in lower case: no two of those that
it keeps are, and whatever it drops is the same as one that it keeps in front of it
(`KeepsOneOfEach`).  That is not the equality of conditions, which compares texts in upper case and
one character at a time.  The two are the same for texts of regular characters, and for no others
(`Project.distinct_keepsOneOfEach`).
-/

namespace CondLang

section Keeping

variable {α γ : Type} {same other : α → α → Prop} {list kept : List α}

/-- A list was gone over and some of its places were kept: no two kept elements are the same, and
each one that was dropped is the same as one that was kept in front of it. -/
def KeepsOneOfEach (same : α → α → Prop) (list kept : List α) : Prop :=
  ∃ keeps : Nat → Bool,
    kept = (list.zipIdx.filter fun place => keeps place.2).map Prod.fst ∧
    (∀ i j, ∀ hi : i < list.length, ∀ hj : j < list.length, i < j →
      keeps i = true → keeps j = true → ¬ same list[i] list[j]) ∧
    ∀ j, ∀ hj : j < list.length, keeps j = false →
      ∃ i, ∃ hi : i < list.length, i < j ∧ keeps i = true ∧ same list[i] list[j]

/-- Only what is the same in the list counts. -/
theorem KeepsOneOfEach.congr (h : KeepsOneOfEach same list kept)
    (hsame : ∀ a ∈ list, ∀ b ∈ list, same a b ↔ other a b) : KeepsOneOfEach other list kept := by
  obtain ⟨keeps, hkept, hapart, hdropped⟩ := h
  refine ⟨keeps, hkept, fun i j hi hj hlt hkeepi hkeepj hother => ?_, fun j hj hdrop => ?_⟩
  · exact hapart i j hi hj hlt hkeepi hkeepj
      ((hsame _ (List.getElem_mem hi) _ (List.getElem_mem hj)).2 hother)
  · obtain ⟨i, hi, hlt, hkeep, hi'⟩ := hdropped j hj hdrop
    exact ⟨i, hi, hlt, hkeep,
      (hsame _ (List.getElem_mem hi) _ (List.getElem_mem hj)).1 hi'⟩

/-- Of a list of two, the second is dropped just if it is the same as the first. -/
theorem KeepsOneOfEach.pair {a b : α} (h : KeepsOneOfEach same [a, b] kept) :
    same a b ↔ kept.length = 1 := by
  obtain ⟨keeps, rfl, hapart, hdropped⟩ := h
  have hfirst : keeps 0 = true := by
    refine Bool.of_not_eq_false fun hdrop => ?_
    obtain ⟨i, -, hlt, -⟩ := hdropped 0 (by simp) hdrop
    exact Nat.not_lt_zero i hlt
  have hsecond : same a b ↔ keeps 1 = false := by
    constructor
    · intro hsame
      refine Bool.eq_false_iff.2 fun hkeep => ?_
      exact hapart 0 1 (by simp) (by simp) Nat.zero_lt_one hfirst hkeep hsame
    · intro hdrop
      obtain ⟨i, hi, hlt, -, hsame⟩ := hdropped 1 (by simp) hdrop
      obtain rfl := Nat.lt_one_iff.1 hlt
      exact hsame
  rw [hsecond]
  cases hkeep : keeps 1 <;> simp [hfirst, hkeep]

variable [DecidableEq γ] {key : α → γ}

/-- Whether the element at a place is the first of its key. -/
def isFirstAt (key : α → γ) (list : List α) (j : Nat) : Bool :=
  list[j]?.any fun a => comesFirst key list (a, j)

theorem isFirstAt_iff {j : Nat} (hj : j < list.length) :
    isFirstAt key list j = true ↔
      ∀ i, ∀ hi : i < list.length, i < j → key list[i] ≠ key list[j] := by
  simp only [isFirstAt, List.getElem?_eq_getElem hj, Option.any_some, comesFirst, List.all_eq_true,
    decide_eq_true_eq, List.mem_take_iff_getElem]
  constructor
  · intro h i hi hlt
    exact h _ ⟨i, by omega, rfl⟩
  · rintro h _ ⟨i, hi, rfl⟩
    exact h i (by omega) (by omega)

/-- In front of an element that is not the first of its key stands the first one. -/
theorem exists_isFirstAt {j : Nat} (hj : j < list.length) (hdrop : isFirstAt key list j = false) :
    ∃ i, ∃ hi : i < list.length, i < j ∧ isFirstAt key list i = true ∧
      key list[i] = key list[j] := by
  induction j using Nat.strong_induction_on with
  | _ j ih =>
    have hnot := mt (isFirstAt_iff hj).2 (Bool.eq_false_iff.1 hdrop)
    push Not at hnot
    obtain ⟨i, hi, hlt, hsame⟩ := hnot
    cases hkeep : isFirstAt key list i with
    | true => exact ⟨i, hi, hlt, hkeep, hsame⟩
    | false =>
      obtain ⟨k, hk, hklt, hkkeep, hksame⟩ := ih i hlt hi hkeep
      exact ⟨k, hk, hklt.trans hlt, hkkeep, hksame.trans hsame⟩

/-- The first elements of their keys are one of each. -/
theorem keepsOneOfEach_firstOfEach (key : α → γ) (list : List α) :
    KeepsOneOfEach (fun a b => key a = key b) list (firstOfEach key list) := by
  refine ⟨isFirstAt key list, ?_, fun i j hi hj hlt _ hkeep => ?_, fun j => exists_isFirstAt⟩
  · refine congrArg (List.map Prod.fst) (List.filter_congr fun place hplace => ?_)
    rw [isFirstAt, List.mem_zipIdx_iff_getElem?.1 hplace]
    rfl
  · exact (isFirstAt_iff hj).1 hkeep i hi hlt

end Keeping

namespace Project

/-- Entries whose texts are the same in lower case. -/
def SameInLowercase (a b : ListEntry) : Prop := Text.lowercase a.text = Text.lowercase b.text

/-- Entries whose texts are equal in conditions. -/
def EqualInConditions (a b : ListEntry) : Prop := Text.sameIgnoringCase a.text b.text = true

theorem keepsOneOfEach_distinct (entries : List ListEntry) :
    KeepsOneOfEach SameInLowercase entries (ListFunction.distinct.apply entries) := by
  rw [ListFunction.apply, distinctFrom_nil]
  exact keepsOneOfEach_firstOfEach entryKey entries

theorem keepsOneOfEach_distinct_of_regular {entries : List ListEntry}
    (h : ∀ entry ∈ entries, Text.AllCaseRegular entry.text) :
    KeepsOneOfEach EqualInConditions entries (ListFunction.distinct.apply entries) :=
  (keepsOneOfEach_distinct entries).congr fun a ha b hb =>
    Text.lowercase_eq_iff (h a ha) (h b hb)

/-- `Distinct()` keeps one of each class of texts that are the same in lower case.  These are the
texts that are equal in conditions if all characters are regular; and each character that is not
stands in a list of two texts for which they are not. -/
theorem distinct_keepsOneOfEach (project : Project)
    (lists : ItemListReference → Except ExpansionError (List String)) (itemType : String)
    {name : String} (hname : Text.sameIgnoringAscii name "Distinct" = true) :
    (∀ entries, ∃ kept,
      project.applyTransform lists itemType entries (.function name "") = .ok kept ∧
      KeepsOneOfEach SameInLowercase entries kept ∧
      ((∀ entry ∈ entries, Text.AllCaseRegular entry.text) →
        KeepsOneOfEach EqualInConditions entries kept)) ∧
    ∀ c, ¬ Text.CaseRegular c → ∃ text kept,
      project.applyTransform lists itemType [⟨.singleton c, none⟩, ⟨text, none⟩]
        (.function name "") = .ok kept ∧
      ¬ KeepsOneOfEach EqualInConditions [⟨.singleton c, none⟩, ⟨text, none⟩] kept := by
  change Text.sameIgnoringAscii name ListFunction.distinct.name = true at hname
  have happly := project.applyTransform_function lists itemType hname
  refine ⟨fun entries => ⟨_, happly entries, keepsOneOfEach_distinct entries,
    keepsOneOfEach_distinct_of_regular⟩, fun c hc => ?_⟩
  obtain ⟨text, htext⟩ := Text.exists_of_not_caseRegular hc
  have hkept := keepsOneOfEach_distinct [⟨.singleton c, none⟩, ⟨text, none⟩]
  exact ⟨text, _, happly _, fun hkeeps => htext (hkept.pair.trans hkeeps.pair.symm)⟩

/-- Three texts, two of which differ in case only. -/
def inBothCases : List ListEntry := [⟨"Ärger", none⟩, ⟨"b", none⟩, ⟨"ÄRGER", none⟩]

theorem distinct_keepsOneOfEach_inBothCases :
    (∀ entry ∈ inBothCases, Text.AllCaseRegular entry.text) ∧
      KeepsOneOfEach EqualInConditions inBothCases [⟨"Ärger", none⟩, ⟨"b", none⟩] := by
  have hregular : ∀ entry ∈ inBothCases, Text.AllCaseRegular entry.text := by decide +kernel
  obtain ⟨kept, happly, -, hkeeps⟩ :=
    (empty.distinct_keepsOneOfEach (fun _ => .ok []) "T"
      (show Text.sameIgnoringAscii "DISTINCT" "Distinct" = true by decide)).1 inBothCases
  have hkept : kept = [⟨"Ärger", none⟩, ⟨"b", none⟩] := by
    refine Except.ok.inj (happly.symm.trans ?_)
    decide +kernel
  exact ⟨hregular, hkept ▸ hkeeps hregular⟩

/-- `Distinct()` keeps both `s` and the long `ſ`, which are equal in conditions, and drops the sign
for Kelvin behind a `k`, which are not. -/
theorem distinct_not_keepsOneOfEach :
    let long : List ListEntry := [⟨"s", none⟩, ⟨"ſ", none⟩]
    let kelvin : List ListEntry := [⟨"k", none⟩, ⟨"\u212A", none⟩]
    ListFunction.distinct.apply long = long ∧ EqualInConditions ⟨"s", none⟩ ⟨"ſ", none⟩ ∧
      ¬ KeepsOneOfEach EqualInConditions long (ListFunction.distinct.apply long) ∧
      ListFunction.distinct.apply kelvin = [⟨"k", none⟩] ∧
      ¬ EqualInConditions ⟨"k", none⟩ ⟨"\u212A", none⟩ := by
  intro long kelvin
  have hlong : ListFunction.distinct.apply long = long := by decide +kernel
  have hequal : EqualInConditions ⟨"s", none⟩ ⟨"ſ", none⟩ := by
    unfold EqualInConditions
    decide +kernel
  refine ⟨hlong, hequal, fun hkeeps => ?_, by decide +kernel, ?_⟩
  · rw [hlong] at hkeeps
    exact absurd (hkeeps.pair.1 hequal) (by decide)
  · unfold EqualInConditions
    decide +kernel

end Project

end CondLang
