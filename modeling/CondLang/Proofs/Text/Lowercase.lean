import CondLang.Proofs.Text.Caseless
import CondLang.Text.Lowercase

/-!
# Two ways of disregarding case

Texts are equal without regard to case if they are equal in upper case, character by character.  One
may as well ask whether they are equal in lower case, as whole texts, and for most characters that
is the same (`Text.lowercase_eq_iff`).  It is not for a character which is the upper case or the
lower case of another one, but does not go back there: the long `ſ` has the upper case `S`, whose
lower case is `s`.  Nor is it for a sigma, whose lower case depends on where it stands, and for the
dotted `İ`, whose lower case has two characters.  Each of them is told apart from some text in one
way only (`Text.exists_of_not_caseRegular`).
-/

namespace CondLang

namespace Text

/-- A character whose upper case and lower case have the same lower case and upper case as it has,
wherever it stands. -/
def CaseRegular (c : Char) : Prop :=
  c ≠ 'Σ' ∧ c ≠ 'İ' ∧ lowerOne (upperOne c) = lowerOne c ∧ upperOne (lowerOne c) = upperOne c

instance (c : Char) : Decidable (CaseRegular c) := inferInstanceAs (Decidable (_ ∧ _))

/-- A text of such characters. -/
def AllCaseRegular (text : String) : Prop := ∀ c ∈ text.toList, CaseRegular c

instance (text : String) : Decidable (AllCaseRegular text) := List.decidableBAll _ text.toList

/-! ## Texts of regular characters -/

/-- In lower case, the characters that are not regular are the only ones which are not mapped by
themselves. -/
theorem lowercaseFrom_eq_map {text : List Char} (before : List Char)
    (h : ∀ c ∈ text, CaseRegular c) : lowercaseFrom before text = text.map lowerOne := by
  induction text generalizing before with
  | nil => rfl
  | cons c text ih =>
    obtain ⟨⟨hsigma, hdotted, -, -⟩, htext⟩ := List.forall_mem_cons.1 h
    simp only [lowercaseFrom, if_neg hsigma, if_neg hdotted, ih _ htext, List.map_cons,
      List.singleton_append]

theorem map_lowerOne_eq_iff {text other : List Char} (h : ∀ c ∈ text, CaseRegular c)
    (h' : ∀ c ∈ other, CaseRegular c) :
    text.map lowerOne = other.map lowerOne ↔ text.map upperOne = other.map upperOne := by
  have hupper : ∀ {text : List Char}, (∀ c ∈ text, CaseRegular c) →
      (text.map lowerOne).map upperOne = text.map upperOne := by
    intro text htext
    rw [List.map_map]
    exact List.map_congr_left fun c hc => (htext c hc).2.2.2
  have hlower : ∀ {text : List Char}, (∀ c ∈ text, CaseRegular c) →
      (text.map upperOne).map lowerOne = text.map lowerOne := by
    intro text htext
    rw [List.map_map]
    exact List.map_congr_left fun c hc => (htext c hc).2.2.1
  constructor
  · intro hsame
    rw [← hupper h, ← hupper h', hsame]
  · intro hsame
    rw [← hlower h, ← hlower h', hsame]

/-- Texts of regular characters are equal in lower case if they are equal without regard to
case. -/
theorem lowercase_eq_iff {a b : String} (ha : AllCaseRegular a) (hb : AllCaseRegular b) :
    lowercase a = lowercase b ↔ sameIgnoringCase a b = true := by
  rw [sameIgnoringCase_iff, ← map_lowerOne_eq_iff ha hb, lowercase, lowercase,
    String.ofList_inj, lowercaseFrom_eq_map [] ha, lowercaseFrom_eq_map [] hb]

/-! ## Changing case twice -/

namespace CaseRun

/-- Whether a run maps to no code point of another one: to code points in front of it or behind it,
or to those which it leaves out. -/
def avoids (run other : CaseRun) : Bool :=
  Nat.blt run.lastImage other.first || Nat.blt other.last run.firstImage ||
    (Nat.beq other.step 2 && (Nat.beq run.step 2 || Nat.beq run.first run.last) &&
      decide (0 ≤ run.first + run.distance) && Nat.beq ((run.firstImage + other.first) % 2) 1)

variable {run other : CaseRun} {code image : Nat}

theorem map?_eq_none_of_avoids (h : run.avoids other = true) (himage : run.map? code = some image) :
    other.map? image = none := by
  obtain ⟨⟨hfirst, hlast, hstep⟩, rfl⟩ := map?_eq_some_iff.1 himage
  have hnot : ¬ (other.first ≤ (code + run.distance).toNat ∧
      (code + run.distance).toNat ≤ other.last ∧
        ((code + run.distance).toNat - other.first) % other.step = 0) := by
    simp only [avoids, firstImage, lastImage, Bool.or_eq_true, Bool.and_eq_true, Nat.blt_eq,
      Nat.beq_eq, decide_eq_true_eq] at h
    rintro ⟨hfrom, hto, halternate⟩
    rcases h with (hbefore | hbehind) | ⟨⟨⟨htwo, hstep' | hsingle⟩, hpos⟩, hparity⟩
    · omega
    · omega
    · rw [htwo] at halternate
      rw [hstep'] at hstep
      omega
    · rw [htwo] at halternate
      omega
  exact if_neg hnot

/-! There are too many runs to look at all pairs of them.  Runs are in order, so most blocks of runs
lie in front of what a run maps to, or behind it. -/

/-- A code point that no run of a block starts in front of. -/
def lowest (block : List CaseRun) : Nat :=
  block.foldr (fun run least => min run.first least) 0x110000

/-- A code point that no run of a block ends behind. -/
def highest (block : List CaseRun) : Nat := block.foldr (fun run most => max run.last most) 0

/-- Whether a run avoids all runs of a block. -/
def avoidsBlock (run : CaseRun) (block : List CaseRun) : Bool :=
  Nat.blt run.lastImage (lowest block) || Nat.blt (highest block) run.firstImage ||
    block.all run.avoids

/-- Runs in blocks, of which there are as many as are asked for, and one more for what is left. -/
def blocks : Nat → List CaseRun → List (List CaseRun)
  | 0, runs => [runs]
  | count + 1, runs => runs.take 16 :: blocks count (runs.drop 16)

theorem lowest_le {block : List CaseRun} (hmem : run ∈ block) : lowest block ≤ run.first := by
  induction block with
  | nil => cases hmem
  | cons first block ih =>
    have hlowest : lowest (first :: block) = min first.first (lowest block) := rfl
    rw [hlowest]
    rcases List.mem_cons.1 hmem with rfl | hrest
    · exact Nat.min_le_left _ _
    · exact (Nat.min_le_right _ _).trans (ih hrest)

theorem le_highest {block : List CaseRun} (hmem : run ∈ block) : run.last ≤ highest block := by
  induction block with
  | nil => cases hmem
  | cons first block ih =>
    have hhighest : highest (first :: block) = max first.last (highest block) := rfl
    rw [hhighest]
    rcases List.mem_cons.1 hmem with rfl | hrest
    · exact Nat.le_max_left _ _
    · exact (ih hrest).trans (Nat.le_max_right _ _)

theorem avoids_of_avoidsBlock {block : List CaseRun} (h : run.avoidsBlock block = true)
    (hmem : other ∈ block) : run.avoids other = true := by
  have hlow := lowest_le hmem
  have hhigh := le_highest hmem
  simp only [avoidsBlock, Bool.or_eq_true, Nat.blt_eq] at h
  simp only [avoids, Bool.or_eq_true, Nat.blt_eq]
  rcases h with (hbefore | hbehind) | hall
  · exact .inl (.inl (hbefore.trans_le hlow))
  · exact .inl (.inr (hhigh.trans_lt hbehind))
  · have havoids := List.all_eq_true.1 hall other hmem
    simpa only [avoids, Bool.or_eq_true, Nat.blt_eq] using havoids

theorem exists_mem_blocks {runs : List CaseRun} (hmem : run ∈ runs) (count : Nat) :
    ∃ block ∈ blocks count runs, run ∈ block := by
  induction count generalizing runs with
  | zero => exact ⟨runs, List.mem_singleton.2 rfl, hmem⟩
  | succ count ih =>
    rw [← List.take_append_drop 16 runs] at hmem
    rcases List.mem_append.1 hmem with htake | hdrop
    · exact ⟨runs.take 16, List.mem_cons_self, htake⟩
    · obtain ⟨block, hblock, hrun⟩ := ih hdrop
      exact ⟨block, List.mem_cons_of_mem _ hblock, hrun⟩

theorem avoids_of_blocks {runs : List CaseRun} {count : Nat}
    (h : (runs.all fun run => (blocks count runs).all run.avoidsBlock) = true) :
    ∀ run ∈ runs, ∀ other ∈ runs, run.avoids other = true := by
  intro run hrun other hother
  obtain ⟨block, hblock, hmem⟩ := exists_mem_blocks hother count
  exact avoids_of_avoidsBlock
    (List.all_eq_true.1 (List.all_eq_true.1 h run hrun) block hblock) hmem

end CaseRun

/-- A code point that is no character gives the null character. -/
theorem toNat_ofNat_cases (code : Nat) :
    (Char.ofNat code).toNat = code ∨ (Char.ofNat code).toNat = 0 := by
  by_cases hvalid : code.isValidChar
  · exact .inl (congrArg Char.toNat (dif_pos hvalid))
  · exact .inr (congrArg Char.toNat (dif_neg hvalid))

/-- Runs that map to none of their code points map no character twice. -/
theorem mapCase_mapCase {runs : List CaseRun} (hpos : ∀ run ∈ runs, 0 < run.first)
    (havoids : ∀ run ∈ runs, ∀ other ∈ runs, run.avoids other = true) (c : Char) :
    mapCase runs (mapCase runs c) = mapCase runs c := by
  cases hfound : runs.findSome? (·.map? c.toNat) with
  | none =>
    have hstays : mapCase runs c = c := by rw [mapCase, hfound]
    rw [hstays, hstays]
  | some image =>
    obtain ⟨run, hrun, hmap⟩ := List.exists_of_findSome?_eq_some hfound
    have hmapped : mapCase runs c = .ofNat image := by rw [mapCase, hfound]
    have hnone : runs.findSome? (·.map? (Char.ofNat image).toNat) = none := by
      refine List.findSome?_eq_none_iff.2 fun other hother => ?_
      rcases toNat_ofNat_cases image with hcode | hcode
      · rw [hcode]
        exact CaseRun.map?_eq_none_of_avoids (havoids run hrun other hother) hmap
      · rw [hcode]
        exact if_neg fun hzero => absurd hzero.1 (Nat.not_le.2 (hpos other hother))
    rw [hmapped, mapCase, hnone]

theorem upperOne_upperOne (c : Char) : upperOne (upperOne c) = upperOne c := by
  have hall : (upperRuns.all fun run =>
      (CaseRun.blocks 12 upperRuns).all run.avoidsBlock) = true := by decide +kernel
  have hpos : ∀ run ∈ upperRuns, 0 < run.first := by decide +kernel
  by_cases hc : c.toNat < 0x80
  · have hascii : ∀ code < 0x80,
        upperOne (upperOne (.ofNat code)) = upperOne (.ofNat code) := by decide +kernel
    exact forall_ascii (p := fun c => upperOne (upperOne c) = upperOne c) hascii hc
  · have hmapped : upperOne c = mapCase upperRuns c := if_neg hc
    rcases upperOne_beyond (Nat.not_lt.1 hc) with hbeyond | hletter | hletter
    · rw [upperOne, if_neg (Nat.not_lt.2 hbeyond), hmapped]
      exact mapCase_mapCase hpos (CaseRun.avoids_of_blocks hall) c
    · rw [hletter]
      decide
    · rw [hletter]
      decide

/-- The lower case of a character beyond ASCII is beyond ASCII, but for one letter, and it is the
dotted capital only if the character is. -/
theorem lowerOne_beyond {c : Char} (h : 0x80 ≤ c.toNat) :
    (0x80 ≤ (lowerOne c).toNat ∨ lowerOne c = 'k') ∧ (lowerOne c = 'İ' → c = 'İ') := by
  have hruns : lowerRuns.all (CaseRun.mapsBeyond ['k']) = true := by decide +kernel
  -- A run of the dotted capital alone.
  have hdotted : (lowerRuns.all fun run => run.avoids ⟨'İ'.toNat, 'İ'.toNat, 2, 0⟩) = true := by
    decide +kernel
  have hmapped : lowerOne c = mapCase lowerRuns c := if_neg (Nat.not_lt.2 h)
  rw [hmapped]
  refine ⟨(mapCase_beyond hruns h).imp_right List.mem_singleton.1, fun hcapital => ?_⟩
  rw [mapCase] at hcapital
  cases hfound : lowerRuns.findSome? (·.map? c.toNat) with
  | none => rwa [hfound] at hcapital
  | some image =>
    rw [hfound] at hcapital
    change Char.ofNat image = 'İ' at hcapital
    obtain ⟨run, hrun, hmap⟩ := List.exists_of_findSome?_eq_some hfound
    have hnone := CaseRun.map?_eq_none_of_avoids (List.all_eq_true.1 hdotted run hrun) hmap
    have himage : image = 'İ'.toNat := by
      rcases toNat_ofNat_cases image with hcode | hcode
      · rw [← hcode, hcapital]
      · rw [hcapital] at hcode
        cases hcode
    rw [himage] at hnone
    cases hnone

theorem lowerOne_lowerOne (c : Char) : lowerOne (lowerOne c) = lowerOne c := by
  have hall : (lowerRuns.all fun run =>
      (CaseRun.blocks 12 lowerRuns).all run.avoidsBlock) = true := by decide +kernel
  have hpos : ∀ run ∈ lowerRuns, 0 < run.first := by decide +kernel
  by_cases hc : c.toNat < 0x80
  · have hascii : ∀ code < 0x80,
        lowerOne (lowerOne (.ofNat code)) = lowerOne (.ofNat code) := by decide +kernel
    exact forall_ascii (p := fun c => lowerOne (lowerOne c) = lowerOne c) hascii hc
  · have hmapped : lowerOne c = mapCase lowerRuns c := if_neg hc
    rcases (lowerOne_beyond (Nat.not_lt.1 hc)).1 with hbeyond | hletter
    · rw [lowerOne, if_neg (Nat.not_lt.2 hbeyond), hmapped]
      exact mapCase_mapCase hpos (CaseRun.avoids_of_blocks hall) c
    · rw [hletter]
      decide

/-! ## Characters that are not regular -/

/-- The lower case of a character alone. -/
theorem lowercase_singleton (c : Char) :
    lowercase (.singleton c) =
      .ofList (if c = 'İ' then ['i', '\u0307'] else [lowerOne c]) := by
  rw [lowercase, String.toList_singleton, lowercaseFrom, lowercaseFrom, List.append_nil]
  by_cases hsigma : c = 'Σ'
  · subst hsigma
    decide
  · rw [if_neg hsigma]

theorem sameIgnoringCase_singleton {c d : Char} :
    sameIgnoringCase (.singleton c) (.singleton d) = true ↔ upperOne c = upperOne d := by
  rw [sameIgnoringCase_iff, String.toList_singleton, String.toList_singleton]
  simp

/-- A character that is not regular is told apart from some text in one way only. -/
theorem exists_of_not_caseRegular {c : Char} (h : ¬ CaseRegular c) :
    ∃ text, ¬ (lowercase (.singleton c) = lowercase text ↔
      sameIgnoringCase (.singleton c) text = true) := by
  by_cases hsigma : c = 'Σ'
  · exact ⟨"ς", by subst hsigma; decide +kernel⟩
  · by_cases hdotted : c = 'İ'
    · exact ⟨"i\u0307", by subst hdotted; decide +kernel⟩
    · by_cases hlower : lowerOne (upperOne c) = lowerOne c
      · -- The lower case is another character in upper case.
        have hupper : upperOne (lowerOne c) ≠ upperOne c := fun hupper =>
          h ⟨hsigma, hdotted, hlower, hupper⟩
        have hother : lowerOne c ≠ 'İ' := by
          intro hother
          by_cases hc : c.toNat < 0x80
          · have hascii : ∀ code < 0x80, lowerOne (.ofNat code) ≠ 'İ' := by decide +kernel
            exact forall_ascii (p := fun c => lowerOne c ≠ 'İ') hascii hc hother
          · exact hdotted ((lowerOne_beyond (Nat.not_lt.1 hc)).2 hother)
        refine ⟨.singleton (lowerOne c), fun hboth => hupper ?_⟩
        refine (sameIgnoringCase_singleton.1 (hboth.1 ?_)).symm
        rw [lowercase_singleton, lowercase_singleton, if_neg hdotted, if_neg hother,
          lowerOne_lowerOne]
      · -- The upper case is another character in lower case.
        refine ⟨.singleton (upperOne c), fun hboth => hlower ?_⟩
        have hsame := hboth.2 (sameIgnoringCase_singleton.2 (upperOne_upperOne c).symm)
        rw [lowercase_singleton, lowercase_singleton, if_neg hdotted, String.ofList_inj] at hsame
        split at hsame
        · simp at hsame
        · exact (List.singleton_inj.1 hsame).symm

end Text

end CondLang
