import CondLang.Command.StateDocument
import CondLang.Evaluation.Context
import CondLang.Proofs.Json
import CondLang.Proofs.Text.Firsts
import Mathlib.Data.List.Basic

/-!
# What a register holds

A register groups the pairs that were recorded: it holds the names that come first, and under each
of them those of its values that come first (`Conditioned.entries_ofPairs`).  So replaying a
register, grouped by name, does as well as replaying the pairs that it was made from
(`Conditioned.merge_ofPairs`), and an evaluator that keeps a register for each evaluation and merges
it into its own loses nothing (`Evaluator.conditioned_after`).
-/

namespace CondLang

/-! ## Tables with known names -/

/-- Changing the value under a name in a table whose values depend on their names. -/
theorem NameTable.alterEntries_map {α : Type} (name : String) (change : Option α → α)
    (value : String → α) {names : List String}
    (hnames : names.Pairwise fun a b => Text.sameIgnoringAscii a b = false) :
    alterEntries name change (names.map fun known => (known, value known)) =
      if names.any (Text.sameIgnoringAscii · name) then
        names.map fun known =>
          (known, if Text.sameIgnoringAscii known name then change (some (value known))
            else value known)
      else names.map (fun known => (known, value known)) ++ [(name, change none)] := by
  induction names with
  | nil => rfl
  | cons first rest ih =>
    obtain ⟨hfirst, hrest⟩ := List.pairwise_cons.1 hnames
    rw [List.map_cons, alterEntries, List.any_cons]
    cases hsame : Text.sameIgnoringAscii first name with
    | true =>
      have hothers : ∀ known ∈ rest, Text.sameIgnoringAscii known name = false :=
        fun known hknown => Text.differs_of_same hsame (hfirst known hknown)
      have hkept : rest.map (fun known => (known, value known)) = rest.map fun known =>
          (known, if Text.sameIgnoringAscii known name then change (some (value known))
            else value known) :=
        List.map_congr_left fun known hknown => by rw [hothers known hknown]; rfl
      rw [if_pos rfl, Bool.true_or, if_pos rfl, List.map_cons, hsame, if_pos rfl, hkept]
    | false =>
      rw [if_neg Bool.false_ne_true, ih hrest, Bool.false_or]
      split
      · rw [List.map_cons, hsame]
        rfl
      · rfl

namespace Conditioned

/-! ## Pairs -/

/-- The register of pairs that are recorded one after the other. -/
def ofPairs (pairs : List (String × String)) : Conditioned :=
  pairs.foldl (fun register (name, value) => register.record name value) .empty

/-- The values that come with a name. -/
def valuesOf (pairs : List (String × String)) (name : String) : List String :=
  (pairs.filter fun pair => Text.sameIgnoringAscii pair.1 name).map (·.2)

/-- The names that come first, each with those of its values that come first. -/
def grouped (pairs : List (String × String)) : List (String × List String) :=
  (Text.firsts (pairs.map (·.1))).map fun name => (name, Text.firsts (valuesOf pairs name))

/-- The pairs that a register holds, grouped by name. -/
def pairs (register : Conditioned) : List (String × String) :=
  register.entries.flatMap fun (name, values) => values.map (name, ·)

theorem valuesOf_append (front back : List (String × String)) (name : String) :
    valuesOf (front ++ back) name = valuesOf front name ++ valuesOf back name := by
  rw [valuesOf, List.filter_append, List.map_append]
  rfl

theorem valuesOf_eq_nil {pairs : List (String × String)} {name : String}
    (h : (pairs.map (·.1)).any (Text.sameIgnoringAscii · name) = false) :
    valuesOf pairs name = [] := by
  rw [valuesOf, List.map_eq_nil_iff, List.filter_eq_nil_iff]
  rw [List.any_map, List.any_eq_false] at h
  exact h

theorem valuesOf_congr {name name' : String} (h : Text.sameIgnoringAscii name name' = true)
    (pairs : List (String × String)) : valuesOf pairs name = valuesOf pairs name' := by
  rw [Text.sameIgnoringAscii_iff] at h
  simp only [valuesOf, Text.sameIgnoringAscii, h]

theorem addValue_firsts (values : List String) (value : String) :
    addValue (Text.firsts values) value = Text.firsts (values ++ [value]) :=
  (Text.firsts_concat values value).symm

theorem valuesOf_concat (pairs : List (String × String)) (name value known : String) :
    valuesOf (pairs ++ [(name, value)]) known =
      if Text.sameIgnoringAscii known name then valuesOf pairs known ++ [value]
      else valuesOf pairs known := by
  rw [valuesOf_append, Text.sameIgnoringAscii_comm]
  cases hsame : Text.sameIgnoringAscii name known <;> simp [valuesOf, hsame]

/-- One more pair changes the group of its name, or comes in a group of its own. -/
theorem grouped_concat (pairs : List (String × String)) (name value : String) :
    grouped (pairs ++ [(name, value)]) =
      NameTable.alterEntries name (fun values => addValue (values.getD []) value)
        (grouped pairs) := by
  rw [grouped, grouped, NameTable.alterEntries_map _ _ _ (Text.pairwise_firsts _),
    Text.any_firsts, List.map_append, List.map_singleton]
  split
  · next hknown =>
    rw [Text.firsts_concat_of_any hknown]
    refine List.map_congr_left fun known _ => congrArg (Prod.mk known) ?_
    rw [valuesOf_concat]
    split
    · exact (addValue_firsts _ _).symm
    · rfl
  · next hnew =>
    rw [Bool.not_eq_true] at hnew
    rw [Text.firsts_concat_of_not_any hnew, List.map_append, List.map_singleton, valuesOf_concat,
      Text.sameIgnoringAscii_refl, if_pos rfl, valuesOf_eq_nil hnew]
    refine congrArg (· ++ [(name, [value])]) (List.map_congr_left fun known hknown => ?_)
    rw [← Text.any_firsts, List.any_eq_false] at hnew
    rw [valuesOf_concat, if_neg (hnew known hknown)]

/-- A register holds the names that come first, with those of their values that come first. -/
theorem entries_ofPairs (pairs : List (String × String)) :
    (ofPairs pairs).entries = grouped pairs := by
  induction pairs using List.reverseRecOn with
  | nil => rfl
  | append_singleton pairs pair ih =>
    obtain ⟨name, value⟩ := pair
    rw [grouped_concat, ← ih, ofPairs, List.foldl_append]
    rfl

/-! ## Merging -/

theorem merge_eq (register other : Conditioned) :
    register.merge other =
      other.pairs.foldl (fun register (name, value) => register.record name value) register := by
  rw [merge, pairs, List.foldl_flatMap]
  simp only [recordAll, List.foldl_map]

/-- Where no two names are the same, a name comes with the values of its group. -/
theorem valuesOf_flatMap {names : List String}
    (hnames : names.Pairwise fun a b => Text.sameIgnoringAscii a b = false)
    (values : String → List String) (name : String) :
    valuesOf (names.flatMap fun known => (values known).map (known, ·)) name =
      ((names.find? (Text.sameIgnoringAscii · name)).map values).getD [] := by
  induction names with
  | nil => rfl
  | cons first rest ih =>
    obtain ⟨hfirst, hrest⟩ := List.pairwise_cons.1 hnames
    have hgroup : valuesOf ((values first).map (first, ·)) name =
        if Text.sameIgnoringAscii first name then values first else [] := by
      cases hsame : Text.sameIgnoringAscii first name <;>
        simp [valuesOf, List.filter_map, Function.comp_def, hsame]
    rw [List.flatMap_cons, valuesOf_append, hgroup, ih hrest, List.find?_cons]
    cases hsame : Text.sameIgnoringAscii first name with
    | false => rfl
    | true =>
      have hnone : rest.find? (Text.sameIgnoringAscii · name) = none :=
        List.find?_eq_none.2 fun known hknown =>
          Bool.eq_false_iff.1 (Text.differs_of_same hsame (hfirst known hknown))
      rw [hnone]
      exact List.append_nil _

/-- Where no two names are the same and each has a value, the names of the groups come first. -/
theorem firsts_flatMap {names : List String}
    (hnames : names.Pairwise fun a b => Text.sameIgnoringAscii a b = false)
    {values : String → List String} (hvalues : ∀ name ∈ names, values name ≠ []) :
    Text.firsts (names.flatMap fun known => (values known).map fun _ => known) = names := by
  induction names using List.reverseRecOn with
  | nil => rfl
  | append_singleton names name ih =>
    obtain ⟨hknown, -, hnew⟩ := List.pairwise_append.1 hnames
    obtain ⟨hothers, hname⟩ := List.forall_mem_append.1 hvalues
    have hrest := ih hknown hothers
    have hnone : names.any (Text.sameIgnoringAscii · name) = false :=
      List.any_eq_false.2 fun known hmem =>
        Bool.eq_false_iff.1 (hnew known hmem name (List.mem_singleton_self name))
    have hne : (values name).map (fun _ => name) ≠ [] :=
      mt List.map_eq_nil_iff.1 (hname name (List.mem_singleton_self name))
    rw [List.flatMap_append, List.flatMap_singleton,
      Text.firsts_append_repeated _ name hne fun other hother => (List.eq_of_mem_map_const hother)]
    rw [Text.firsts_concat, hrest, hnone]
    rfl

theorem firsts_names_pairs (pairs : List (String × String)) :
    Text.firsts ((ofPairs pairs).pairs.map (·.1)) = Text.firsts (pairs.map (·.1)) := by
  have hnames : (ofPairs pairs).pairs.map (·.1) =
      (Text.firsts (pairs.map (·.1))).flatMap fun known =>
        (Text.firsts (valuesOf pairs known)).map fun _ => known := by
    simp [Conditioned.pairs, entries_ofPairs, grouped, List.flatMap_map, List.map_flatMap,
      Function.comp_def]
  rw [hnames]
  refine firsts_flatMap (Text.pairwise_firsts _) fun known hknown => ?_
  have hvalues : valuesOf pairs known ≠ [] := by
    obtain ⟨pair, hpair, rfl⟩ := List.mem_map.1 ((Text.firsts_sublist _).subset hknown)
    exact List.ne_nil_of_mem (List.mem_map_of_mem
      (List.mem_filter.2 ⟨hpair, Text.sameIgnoringAscii_refl _⟩))
  exact Text.firsts_ne_nil hvalues

theorem valuesOf_pairs (pairs : List (String × String)) (name : String) :
    valuesOf (ofPairs pairs).pairs name = Text.firsts (valuesOf pairs name) := by
  have hpairs : (ofPairs pairs).pairs =
      (Text.firsts (pairs.map (·.1))).flatMap fun known =>
        (Text.firsts (valuesOf pairs known)).map (known, ·) := by
    simp [Conditioned.pairs, entries_ofPairs, grouped, List.flatMap_map]
  rw [hpairs, valuesOf_flatMap (Text.pairwise_firsts _)]
  cases hfound : (Text.firsts (pairs.map (·.1))).find? (Text.sameIgnoringAscii · name) with
  | some known =>
    have hsame := List.find?_some hfound
    rw [← valuesOf_congr hsame]
    rfl
  | none =>
    rw [valuesOf_eq_nil]
    · rfl
    · rw [← Text.any_firsts, List.any_eq_false]
      exact List.find?_eq_none.1 hfound

/-- Replaying a register does as well as replaying the pairs that it was made from. -/
theorem merge_ofPairs (front back : List (String × String)) :
    (ofPairs front).merge (ofPairs back) = ofPairs (front ++ back) := by
  have hreplayed : (ofPairs front).merge (ofPairs back) =
      ofPairs (front ++ (ofPairs back).pairs) := (merge_eq _ _).trans List.foldl_append.symm
  have hentries : (ofPairs (front ++ (ofPairs back).pairs)).entries =
      (ofPairs (front ++ back)).entries := by
    rw [entries_ofPairs, entries_ofPairs, grouped, grouped, List.map_append, List.map_append,
      ← Text.firsts_append_firsts, firsts_names_pairs, Text.firsts_append_firsts]
    refine List.map_congr_left fun name _ => congrArg (Prod.mk name) ?_
    rw [valuesOf_append, valuesOf_append, valuesOf_pairs, Text.firsts_append_firsts]
  rw [hreplayed]
  exact congrArg NameTable.mk hentries

/-! ## Histories -/

/-- How a register came about: it is new, or a value was recorded, or another register merged into
it. -/
inductive History where
  | new
  | record (past : History) (name value : String)
  | merge (past other : History)

namespace History

/-- The register that came about. -/
def register : History → Conditioned
  | new => .empty
  | record past name value => past.register.record name value
  | merge past other => past.register.merge other.register

/-- The pairs that were recorded, one after the other. -/
def log : History → List (String × String)
  | new => []
  | record past name value => past.log ++ [(name, value)]
  | merge past other => past.log ++ other.log

/-- However a register came about, it is the register of what was recorded. -/
theorem register_eq (history : History) : history.register = ofPairs history.log := by
  induction history with
  | new => rfl
  | record past name value ih =>
    rw [register, log, ih, ofPairs, ofPairs, List.foldl_append]
    rfl
  | merge past other ihp iho => rw [register, log, ihp, iho, merge_ofPairs]

end History

/-- What becomes of a register as JSON: an object with a member for each name, which holds its
values. -/
theorem exists_ofConditioned_eq (register : Conditioned)
    (h : (register.entries.map (·.1)).Nodup) :
    ∃ members, StateDocument.ofConditioned register = .object members ∧
      members.Perm (register.entries.map fun (name, values) => (name, .ofTexts values)) := by
  refine Json.exists_ofMembers_eq ?_
  rwa [List.map_map]

end Conditioned

/-! ## Evaluators -/

namespace Evaluator

/-- What an evaluation reported to have recorded. -/
def reports (evaluated : Evaluated) : List (String × String) :=
  evaluated.events.filterMap Event.record?

/-- The evaluator after conditions were evaluated in environments, one after the other. -/
def after (evaluator : Evaluator) (runs : List (Condition × Environment)) : Evaluator :=
  runs.foldl (fun evaluator (condition, env) => (evaluator.evaluate condition env).2) evaluator

/-- What the evaluations reported to have recorded, one after the other. -/
def reported (evaluator : Evaluator) : List (Condition × Environment) → List (String × String)
  | [] => []
  | (condition, env) :: runs =>
      let (evaluated, next) := evaluator.evaluate condition env
      reports evaluated ++ next.reported runs

/-- One evaluation adds what it reports, whether it fails or not. -/
theorem conditioned_evaluate {evaluator : Evaluator} {pairs : List (String × String)}
    (h : evaluator.conditioned = some (.ofPairs pairs)) (condition : Condition)
    (env : Environment) :
    (evaluator.evaluate condition env).2.conditioned =
      some (.ofPairs (pairs ++ reports (evaluator.evaluate condition env).1)) := by
  rw [← Conditioned.merge_ofPairs]
  unfold evaluate
  rw [h]
  rfl

theorem conditioned_after {evaluator : Evaluator} {pairs : List (String × String)}
    (h : evaluator.conditioned = some (.ofPairs pairs)) (runs : List (Condition × Environment)) :
    (evaluator.after runs).conditioned = some (.ofPairs (pairs ++ evaluator.reported runs)) := by
  induction runs generalizing evaluator pairs with
  | nil => rw [reported, List.append_nil]; exact h
  | cons run runs ih =>
    obtain ⟨condition, env⟩ := run
    rw [reported, ← List.append_assoc]
    exact ih (conditioned_evaluate h condition env)

/-- Whatever an evaluator evaluates, its register is that of all that was reported, recorded one
after the other.  However a register came about, it holds the names that came first, no two of which
are the same, and under each of them those of its values that came first, no two of which are the
same; and as JSON it keeps all of them. -/
theorem register_ofPairs :
    (∀ runs : List (Condition × Environment),
      (recording.after runs).conditioned = some (.ofPairs (recording.reported runs))) ∧
    ∀ history : Conditioned.History,
      let register := history.register
      register = .ofPairs history.log ∧
      register.entries = (Text.firsts (history.log.map (·.1))).map (fun name =>
        (name, Text.firsts (Conditioned.valuesOf history.log name))) ∧
      (register.entries.Pairwise fun entry other =>
        Text.sameIgnoringAscii entry.1 other.1 = false) ∧
      (∀ entry ∈ register.entries,
        entry.2.Pairwise fun value other => Text.sameIgnoringAscii value other = false) ∧
      ∃ members, StateDocument.ofConditioned register = .object members ∧
        members.Perm (register.entries.map fun (name, values) => (name, .ofTexts values)) := by
  have hnew : recording.conditioned = some (.ofPairs []) := rfl
  refine ⟨conditioned_after hnew, fun history => ?_⟩
  intro register
  have hregister : register = .ofPairs history.log := history.register_eq
  have hentries : register.entries = Conditioned.grouped history.log := by
    rw [hregister, Conditioned.entries_ofPairs]
  have hnames : register.entries.map (·.1) = Text.firsts (history.log.map (·.1)) := by
    rw [hentries, Conditioned.grouped, List.map_map]
    exact List.map_id _
  have hdiffer := Text.pairwise_firsts (history.log.map (·.1))
  rw [← hnames] at hdiffer
  refine ⟨hregister, hentries, List.pairwise_map.1 hdiffer, fun entry hentry => ?_, ?_⟩
  · rw [hentries] at hentry
    obtain ⟨name, -, rfl⟩ := List.mem_map.1 hentry
    exact Text.pairwise_firsts _
  · refine Conditioned.exists_ofConditioned_eq register (hdiffer.imp fun {a b} hdiffers => ?_)
    rintro rfl
    rw [Text.sameIgnoringAscii_refl] at hdiffers
    cases hdiffers

/-- The second evaluation fails after its comparison, and finds one name and one value of the first
one in another spelling. -/
theorem register_ofPairs_interleaved :
    let env := Environment.constant ""
    let runs := ["'$(B)|$(A)' == 'x|y'", "'$(a)|$(b)' == 'Z|X' or c"].filterMap fun text =>
      (Condition.parse text .everything).toOption.map (·, env)
    let history := (Conditioned.History.new.record "B" "x").merge
      (((Conditioned.History.new.record "A" "y").record "a" "Z").record "b" "X")
    (recording.after runs).conditioned = some history.register ∧
      history.register.entries = [("B", ["x"]), ("A", ["y", "Z"])] ∧
      ["y", "Z"].Pairwise (fun value other => Text.sameIgnoringAscii value other = false) ∧
      runs.map (fun (condition, env) => (condition.evaluate env).outcome.isOk) =
        [true, false] := by
  intro env runs history
  have hreported : recording.reported runs = history.log := by decide +kernel
  have hentries : history.register.entries = [("B", ["x"]), ("A", ["y", "Z"])] := by
    decide +kernel
  obtain ⟨hruns, hhistory⟩ := register_ofPairs
  obtain ⟨hregister, -, -, hvalues, -⟩ := hhistory history
  refine ⟨?_, hentries, hvalues ("A", ["y", "Z"]) (by rw [hentries]; simp), by decide +kernel⟩
  rw [hruns, hreported, hregister]

end Evaluator

end CondLang
