import CondLang.Proofs.Value.Version

/-!
# Versions as they are written

A version is written as two to four runs of digits with a point between each two of them
(`Version.Dotted`), and its components are the values of the runs.  It is printed without leading
zeros, and what is printed reads back.  The order of versions is the lexicographic order of their
components, in which a version comes before those that go on behind its last component
(`Version.dotted_printed_ordered`).
-/

namespace CondLang

namespace Version

variable {text : String} {v w : Version}

/-- Runs of digits which are a text when points are put between them, and which may stand for the
components of a version. -/
structure Dotted (text : String) (runs : List (List Char)) : Prop where
  joined : text.toList = ['.'].intercalate runs
  two_le : 2 ≤ runs.length
  le_four : runs.length ≤ 4
  nonempty : ∀ run ∈ runs, run ≠ []
  digits : ∀ run ∈ runs, ∀ c ∈ run, c.isDigit = true
  small : ∀ run ∈ runs, Text.decimalValue run < 2 ^ 32

/-- No component is missing in front of one that is there. -/
def Gapless (v : Version) : Prop := v.build = none → v.revision = none

/-! ## Components -/

theorem ofComponents?_eq_some_iff {values : List Nat} :
    ofComponents? values = some v ↔ v.components = values ∧ v.Gapless := by
  constructor
  · intro h
    unfold ofComponents? at h
    split at h <;> cases h
    · exact ⟨rfl, fun _ => rfl⟩
    · exact ⟨rfl, fun _ => rfl⟩
    · exact ⟨rfl, nofun⟩
  · obtain ⟨major, minor, build, revision⟩ := v
    rintro ⟨rfl, hgapless⟩
    cases build with
    | none =>
      obtain rfl : revision = none := hgapless rfl
      rfl
    | some build => cases revision <;> rfl

theorem exists_ofComponents?_iff {values : List Nat} :
    (∃ v, ofComponents? values = some v) ↔ 2 ≤ values.length ∧ values.length ≤ 4 := by
  constructor
  · rintro ⟨v, h⟩
    unfold ofComponents? at h
    split at h <;> simp at h ⊢
  · rintro ⟨htwo, hfour⟩
    match values, htwo, hfour with
    | [_, _], _, _ => exact ⟨_, rfl⟩
    | [_, _, _], _, _ => exact ⟨_, rfl⟩
    | [_, _, _, _], _, _ => exact ⟨_, rfl⟩

/-- Versions without gaps are told apart by their components. -/
theorem components_inj (hv : v.Gapless) (hw : w.Gapless) :
    v.components = w.components ↔ v = w := by
  refine ⟨fun h => ?_, fun h => h ▸ rfl⟩
  have hread := ofComponents?_eq_some_iff.2 ⟨h, hv⟩
  rw [ofComponents?_eq_some_iff.2 ⟨rfl, hw⟩] at hread
  exact (Option.some.inj hread).symm

/-! ## Reading -/

theorem component?_eq_some_iff {run : List Char} {n : Nat} :
    component? run = some n ↔ run ≠ [] ∧ (∀ c ∈ run, c.isDigit = true) ∧
      Text.decimalValue run < 2 ^ 32 ∧ Text.decimalValue run = n := by
  simp only [component?, Option.ite_none_right_eq_some, Bool.and_eq_true, Bool.not_eq_true',
    List.isEmpty_eq_false_iff, List.all_eq_true, Option.some.injEq, and_assoc]
  rfl

theorem mapM_component?_eq_some_iff {runs : List (List Char)} {values : List Nat} :
    runs.mapM component? = some values ↔
      (∀ run ∈ runs, run ≠ [] ∧ (∀ c ∈ run, c.isDigit = true) ∧
        Text.decimalValue run < 2 ^ 32) ∧ runs.map Text.decimalValue = values := by
  induction runs generalizing values with
  | nil => simp
  | cons run runs ih =>
    simp only [List.mapM_cons, Option.bind_eq_bind, Option.bind_eq_some_iff, Option.pure_def,
      Option.some.injEq, component?_eq_some_iff, ih, List.forall_mem_cons, List.map_cons]
    constructor
    · rintro ⟨n, ⟨hne, hdigits, hlt, rfl⟩, others, ⟨hruns, rfl⟩, rfl⟩
      exact ⟨⟨⟨hne, hdigits, hlt⟩, hruns⟩, rfl⟩
    · rintro ⟨⟨⟨hne, hdigits, hlt⟩, hruns⟩, rfl⟩
      exact ⟨_, ⟨hne, hdigits, hlt, rfl⟩, _, ⟨hruns, rfl⟩, rfl⟩

/-- A run of digits holds no point. -/
theorem point_not_mem {run : List Char} (h : ∀ c ∈ run, c.isDigit = true) : '.' ∉ run :=
  fun hmem => Bool.false_ne_true (h '.' hmem)

/-- What the runs of a text are read as is the version. -/
theorem parse?_of_dotted {runs : List (List Char)} (h : Dotted text runs) :
    parse? text = ofComponents? (runs.map Text.decimalValue) := by
  have hne : runs ≠ [] := List.ne_nil_of_length_pos (Nat.lt_of_lt_of_le (by decide) h.two_le)
  have hsplit := (Text.splitOn_eq_iff hne fun run hrun => point_not_mem (h.digits run hrun)).2
    h.joined
  have hvalues := mapM_component?_eq_some_iff.2
    ⟨fun run hrun => ⟨h.nonempty run hrun, h.digits run hrun, h.small run hrun⟩, rfl⟩
  rw [parse?, hsplit, hvalues, Option.bind_some]

theorem exists_dotted (h : parse? text = some v) : ∃ runs, Dotted text runs := by
  obtain ⟨values, hmap, hcomponents⟩ := Option.bind_eq_some_iff.1 h
  obtain ⟨hruns, rfl⟩ := mapM_component?_eq_some_iff.1 hmap
  obtain ⟨htwo, hfour⟩ := exists_ofComponents?_iff.1 ⟨v, hcomponents⟩
  rw [List.length_map] at htwo hfour
  have hjoined := (Text.splitOn_eq_iff (Text.splitOn_ne_nil '.' text.toList)
    fun run hrun => point_not_mem (hruns run hrun).2.1).1 rfl
  exact ⟨_, hjoined, htwo, hfour, fun run hrun => (hruns run hrun).1,
    fun run hrun => (hruns run hrun).2.1, fun run hrun => (hruns run hrun).2.2⟩

theorem parse?_eq_some_iff :
    parse? text = some v ↔ ∃ runs, Dotted text runs ∧
      v.components = runs.map Text.decimalValue ∧ v.Gapless := by
  constructor
  · intro h
    obtain ⟨runs, hruns⟩ := exists_dotted h
    exact ⟨runs, hruns, ofComponents?_eq_some_iff.1 ((parse?_of_dotted hruns).symm.trans h)⟩
  · rintro ⟨runs, hruns, hcomponents⟩
    rw [parse?_of_dotted hruns]
    exact ofComponents?_eq_some_iff.2 hcomponents

theorem gapless_of_parse? (h : parse? text = some v) : v.Gapless := by
  obtain ⟨runs, -, -, hgapless⟩ := parse?_eq_some_iff.1 h
  exact hgapless

/-- A text of dotted runs is a version. -/
theorem exists_parse?_iff : (∃ v, parse? text = some v) ↔ ∃ runs, Dotted text runs := by
  refine ⟨fun ⟨v, h⟩ => exists_dotted h, fun ⟨runs, hruns⟩ => ?_⟩
  rw [parse?_of_dotted hruns]
  refine exists_ofComponents?_iff.2 ?_
  rw [List.length_map]
  exact ⟨hruns.two_le, hruns.le_four⟩

/-! ## Printing -/

/-- A version is printed as the digits of its components. -/
theorem toList_toText (v : Version) :
    v.toText.toList = ['.'].intercalate (v.components.map Text.decimalDigits) := by
  have hdigits : String.toList ∘ toString = Text.decimalDigits := by
    funext n
    rw [Function.comp_apply, Nat.toString_eq_ofList_toDigits, String.toList_ofList]
    rfl
  rw [toText, String.toList_intercalate, List.map_map, hdigits]
  rfl

theorem dotted_toText (hv : ∃ w, ofComponents? v.components = some w)
    (hsmall : ∀ n ∈ v.components, n < 2 ^ 32) :
    Dotted v.toText (v.components.map Text.decimalDigits) := by
  obtain ⟨htwo, hfour⟩ := exists_ofComponents?_iff.1 hv
  refine ⟨toList_toText v, by rwa [List.length_map], by rwa [List.length_map], ?_, ?_, ?_⟩
  all_goals
    intro run hrun
    obtain ⟨n, hn, rfl⟩ := List.mem_map.1 hrun
  · exact Nat.toDigits_ne_nil
  · exact fun c hc => Nat.isDigit_of_mem_toDigits (by decide) (by decide) hc
  · rw [Text.decimalValue_decimalDigits]
    exact hsmall n hn

/-- What is printed reads back. -/
theorem parse?_toText (h : parse? text = some v) : parse? v.toText = some v := by
  obtain ⟨runs, hruns, hcomponents, hgapless⟩ := parse?_eq_some_iff.1 h
  have hread := ofComponents?_eq_some_iff.2 ⟨rfl, hgapless⟩
  have hsmall : ∀ n ∈ v.components, n < 2 ^ 32 := by
    intro n hn
    rw [hcomponents] at hn
    obtain ⟨run, hrun, rfl⟩ := List.mem_map.1 hn
    exact hruns.small run hrun
  refine parse?_eq_some_iff.2 ⟨_, dotted_toText ⟨v, hread⟩ hsmall, ?_, hgapless⟩
  rw [List.map_map]
  have hvalues : Text.decimalValue ∘ Text.decimalDigits = id :=
    funext Text.decimalValue_decimalDigits
  rw [hvalues, List.map_id]

/-! ## Order -/

/-- Versions without gaps are ordered by their components. -/
theorem compare_eq_compareLex (hv : v.Gapless) (hw : w.Gapless) :
    v.compare w = List.compareLex Ord.compare v.components w.components := by
  obtain ⟨major, minor, build, revision⟩ := v
  obtain ⟨major', minor', build', revision'⟩ := w
  -- A revision without a build is no case, as the versions have no gaps.
  cases build <;> cases build' <;> cases revision <;> cases revision' <;>
    simp_all [Gapless, compare, compareOptional, components, List.compareLex_cons_cons,
      List.compareLex_nil_nil, List.compareLex_nil_cons, List.compareLex_cons_nil]

/-- A list comes before those that it starts. -/
theorem compareLex_prefix {front behind : List Nat} (h : behind ≠ []) :
    List.compareLex Ord.compare front (front ++ behind) = .lt := by
  induction front with
  | nil =>
    obtain ⟨n, rest, rfl⟩ := List.exists_cons_of_ne_nil h
    rfl
  | cons n front ih =>
    rw [List.cons_append, List.compareLex_cons_cons, compare_eq_iff_eq.2 rfl, ih]
    rfl

theorem compare_of_prefix (hv : v.Gapless) (hw : w.Gapless)
    (hfront : v.components <+: w.components) (hne : v.components ≠ w.components) :
    v.compare w = .lt := by
  obtain ⟨behind, hbehind⟩ := hfront
  rw [compare_eq_compareLex hv hw, ← hbehind]
  refine compareLex_prefix fun hnil => hne ?_
  rw [← hbehind, hnil, List.append_nil]

/-- A text is a version if and only if it is two to four runs of ASCII digits with single points
between them, each of a value below `2 ^ 32`, and then these values are its components.  What is
printed for such a version reads back as it.  Versions that are read have the lexicographic order of
their components, in which a list comes before those that go on behind it, and are equal if and only
if their components are. -/
theorem dotted_printed_ordered :
    (∀ text, (∃ v, parse? text = some v) ↔ ∃ runs, Dotted text runs) ∧
    (∀ text v, parse? text = some v ↔ ∃ runs, Dotted text runs ∧
      v.components = runs.map Text.decimalValue ∧ v.Gapless) ∧
    (∀ text v, parse? text = some v → parse? v.toText = some v) ∧
    ∀ text text' v w, parse? text = some v → parse? text' = some w →
      v.compare w = List.compareLex Ord.compare v.components w.components ∧
      (v.components <+: w.components → v.components ≠ w.components → v.compare w = .lt) ∧
      (v.compare w = .eq ↔ v.components = w.components) ∧
      (v = w ↔ v.components = w.components) := by
  refine ⟨fun text => exists_parse?_iff, fun text v => parse?_eq_some_iff,
    fun text v => parse?_toText, fun text text' v w h h' => ?_⟩
  have hv := gapless_of_parse? h
  have hw := gapless_of_parse? h'
  exact ⟨compare_eq_compareLex hv hw, compare_of_prefix hv hw,
    compare_eq_eq_iff.trans (components_inj hv hw).symm, (components_inj hv hw).symm⟩

/-- Leading zeros do not count and are not printed, `1.0` comes before `1.0.0`, and a run of value
`2 ^ 32` is no component. -/
theorem dotted_printed_ordered_leadingZeros :
    Dotted "01.00" ["01".toList, "00".toList] ∧ parse? "01.00" = some ⟨1, 0, none, none⟩ ∧
    parse? (toText ⟨1, 0, none, none⟩) = some ⟨1, 0, none, none⟩ ∧
    parse? "1.0.0" = some ⟨1, 0, some 0, none⟩ ∧
    compare ⟨1, 0, none, none⟩ ⟨1, 0, some 0, none⟩ = .lt ∧
    ¬ ∃ runs, Dotted "1.4294967296" runs := by
  obtain ⟨hreads, hvalues, hprinted, hordered⟩ := dotted_printed_ordered
  have hdotted : Dotted "01.00" ["01".toList, "00".toList] :=
    ⟨by decide, by decide, by decide, by decide, by simp, by decide⟩
  have hfirst : parse? "01.00" = some ⟨1, 0, none, none⟩ :=
    (hvalues _ _).2 ⟨_, hdotted, by decide, fun _ => rfl⟩
  have hsecond : parse? "1.0.0" = some ⟨1, 0, some 0, none⟩ :=
    (hvalues _ _).2 ⟨["1".toList, "0".toList, "0".toList],
      ⟨by decide, by decide, by decide, by decide, by simp, by decide⟩, by decide, nofun⟩
  have hlarge : parse? "1.4294967296" = none := by decide +kernel
  refine ⟨hdotted, hfirst, hprinted _ _ hfirst, hsecond,
    (hordered _ _ _ _ hfirst hsecond).2.1 (by decide) (by decide), fun hruns => ?_⟩
  obtain ⟨v, hv⟩ := (hreads _).2 hruns
  cases hlarge.symm.trans hv

end Version

end CondLang
