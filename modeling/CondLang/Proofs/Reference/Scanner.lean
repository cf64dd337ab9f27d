import CondLang.Proofs.Reference.Unambiguous

/-!
# Reading a reference by positions

A reference to an item list may also be read without splitting its text, by a position that moves
over it.  `Scanner.scan` does so, and every character, range and predecessor of a position that it
takes is checked: what lies outside of the text ends the scan with a fault of its own, and so does
a scan that does not come to an end.  Neither happens, whatever the text is, because the scan is the
reading (`Scanner.scan_eq`): the position is always where the rest of the text begins that is left
to read.

So a text is read exactly if it is written as a reference, in the one way that there is, and no
position leaves it (`parse_written`).
-/

namespace CondLang

namespace ItemListReference

open Character (isNameChar)
open Text (isBlank dropBlanks)

namespace Scanner

/-! ## The scan -/

/-- Why a scan does not succeed: the text is no reference, a position is used that lies outside of
it, or more steps are needed than it has characters. -/
inductive Fault where
  | malformed
  | outside
  | endless
  deriving DecidableEq, Repr

/-- The outcome of a scan. -/
abbrev Scan := Except Fault

/-- The character at a position. -/
def charAt (input : List Char) (pos : Nat) : Scan Char :=
  match input[pos]? with
  | some c => .ok c
  | none => .error .outside

/-- The characters from one position up to another. -/
def slice (input : List Char) (start stop : Nat) : Scan (List Char) :=
  if start ≤ stop ∧ stop ≤ input.length then .ok ((input.drop start).take (stop - start))
  else .error .outside

/-- The position in front of another. -/
def previous : Nat → Scan Nat
  | 0 => .error .outside
  | pos + 1 => .ok pos

/-- The position where a class of characters ends. -/
def skip (p : Char → Bool) (input : List Char) (pos : Nat) : Scan Nat :=
  if pos < input.length then do
    if p (← charAt input pos) then skip p input (pos + 1) else return pos
  else return pos
termination_by input.length - pos

/-- The quoted text at a position, and the position behind it. -/
def scanQuoted (input : List Char) (pos : Nat) : Scan (List Char × Nat) :=
  if input[pos]? = some '\'' then do
    let close ← skip (· != '\'') input (pos + 1)
    if close < input.length then return (← slice input (pos + 1) close, close + 1)
    else .error .malformed
  else .error .malformed

/-- The name at a position, and the position behind it. -/
def scanName (input : List Char) (pos : Nat) : Scan (List Char × Nat) := do
  let stop ← skip isNameChar input pos
  if stop = pos then .error .malformed
  else return (← slice input pos stop, stop)

/-- The position behind the group that goes on at a position, where `depth` parentheses are open. -/
def scanGroup (input : List Char) : Nat → Nat → Nat → Scan Nat
  | 0, _, _ => .error .endless
  | fuel + 1, depth, pos =>
      if pos < input.length then do
        let c ← charAt input pos
        if c = '(' then scanGroup input fuel (depth + 1) (pos + 1)
        else if c = ')' then
          if depth - 1 = 0 then return pos + 1
          else scanGroup input fuel (depth - 1) (pos + 1)
        else if Reference.isQuote c then
          let close ← skip (· != c) input (pos + 1)
          if close < input.length then scanGroup input fuel depth (close + 1)
          else .error .malformed
        else scanGroup input fuel depth (pos + 1)
      else .error .malformed

/-- The position behind the reference whose sigil stands at a position. -/
def scanReference (input : List Char) (start : Nat) : Scan Nat :=
  scanGroup input (input.length + 1) 0 (start + 1)

/-- The transform at a position, and the position behind it.  The end of the arguments is sought as
that of a reference, so from the position in front of their parenthesis. -/
def scanTransform (input : List Char) (pos : Nat) : Scan (ItemTransform × Nat) :=
  if input[pos]? = some '\'' then do
    let (content, pos) ← scanQuoted input pos
    return (.expression (.ofList content), pos)
  else do
    let (name, pos) ← scanName input pos
    let pos ← skip isBlank input pos
    if input[pos]? = some '(' then
      let stop ← scanReference input (← previous pos)
      let inner ← slice input (pos + 1) (← previous stop)
      return (.function (.ofList name) (.ofList (Text.trimmed inner)), stop)
    else .error .malformed

/-- The transforms from a position on, and the position behind the blanks that follow them. -/
def scanTransforms (input : List Char) : Nat → Nat → Scan (List ItemTransform × Nat)
  | 0, _ => .error .endless
  | fuel + 1, pos => do
      let pos ← skip isBlank input pos
      if input[pos]? = some '-' ∧ input[pos + 1]? = some '>' then
        let pos ← skip isBlank input (pos + 2)
        let (transform, pos) ← scanTransform input pos
        let (transforms, pos) ← scanTransforms input fuel pos
        return (transform :: transforms, pos)
      else return ([], pos)

/-- The separator at a position, if there is one, and the position behind it. -/
def scanSeparator (input : List Char) (pos : Nat) : Scan (Option String × Nat) :=
  if input[pos]? = some ',' then do
    let pos ← skip isBlank input (pos + 1)
    let (content, pos) ← scanQuoted input pos
    return (some (.ofList content), ← skip isBlank input pos)
  else return (none, pos)

/-- The reference that a text writes. -/
def scan (input : List Char) : Scan ItemListReference := do
  let pos ← skip isBlank input 0
  let (name, pos) ← scanName input pos
  let (transforms, pos) ← scanTransforms input (input.length - pos + 1) pos
  let (separator, pos) ← scanSeparator input pos
  if pos = input.length then return ⟨.ofList name, transforms, separator⟩
  else .error .malformed

/-! ## Positions and rests -/

variable {input text rest : List Char} {c : Char} {p : Char → Bool}

/-- The position at which the rest of a text begins. -/
def place (input rest : List Char) : Nat := input.length - rest.length

/-- What a scan ends with where parts are split off: the position is that of the rest. -/
def standing {α : Type} (input : List Char) : Option (α × List Char) → Scan (α × Nat)
  | some (a, rest) => .ok (a, place input rest)
  | none => .error .malformed

theorem ok_bind {α β : Type} (a : α) (next : α → Scan β) : (Except.ok a >>= next) = next a := rfl

theorem place_self (input : List Char) : place input input = 0 := Nat.sub_self _

theorem place_le (input rest : List Char) : place input rest ≤ input.length := Nat.sub_le _ _

theorem drop_place (h : rest <:+ input) : input.drop (place input rest) = rest := by
  obtain ⟨front, rfl⟩ := h
  rw [place, List.length_append, Nat.add_sub_cancel, List.drop_left]

theorem getElem?_place (h : rest <:+ input) (n : Nat) :
    input[place input rest + n]? = rest[n]? := by
  rw [← List.getElem?_drop, drop_place h]

theorem head?_place (h : rest <:+ input) : input[place input rest]? = rest.head? := by
  rw [List.head?_eq_getElem?, ← getElem?_place h 0, Nat.add_zero]

theorem charAt_place (h : c :: rest <:+ input) :
    charAt input (place input (c :: rest)) = .ok c := by
  rw [charAt, head?_place h]
  rfl

theorem place_tail (h : c :: rest <:+ input) : place input (c :: rest) + 1 = place input rest := by
  have hlength := h.length_le
  rw [List.length_cons] at hlength
  rw [place, place, List.length_cons]
  omega

theorem place_lt_iff (h : rest <:+ input) : place input rest < input.length ↔ rest ≠ [] := by
  have hlength := h.length_le
  rw [place, ← List.length_pos_iff]
  omega

theorem place_eq_length_iff (h : rest <:+ input) : place input rest = input.length ↔ rest = [] := by
  have hlength := h.length_le
  rw [place, ← List.length_eq_zero_iff]
  omega

theorem place_append (h : text ++ rest <:+ input) :
    place input rest = place input (text ++ rest) + text.length := by
  have hlength := h.length_le
  rw [List.length_append] at hlength
  rw [place, place, List.length_append]
  omega

theorem slice_place (h : text ++ rest <:+ input) :
    slice input (place input (text ++ rest)) (place input rest) = .ok text := by
  have hplace := place_append h
  rw [slice, if_pos ⟨by omega, place_le _ _⟩, drop_place h, hplace, Nat.add_sub_cancel_left,
    List.take_left]

/-- Where a class ends, the characters behind it begin. -/
theorem skip_place (p : Char → Bool) (h : rest <:+ input) :
    skip p input (place input rest) = .ok (place input (rest.dropWhile p)) := by
  induction rest with
  | nil =>
    rw [skip, if_neg fun hlt => (place_lt_iff h).1 hlt rfl]
    rfl
  | cons c rest ih =>
    have htail : rest <:+ input := (List.suffix_cons c rest).trans h
    rw [skip, if_pos ((place_lt_iff h).2 (List.cons_ne_nil _ _)), charAt_place h, ok_bind]
    cases hp : p c with
    | true =>
      rw [if_pos rfl, place_tail h, ih htail, List.dropWhile_cons_of_pos hp]
    | false =>
      rw [if_neg Bool.false_ne_true, List.dropWhile_cons_of_neg (by simp [hp])]
      rfl

/-! ## The parts -/

theorem scanQuoted_place (h : rest <:+ input) :
    scanQuoted input (place input rest) = standing input (splitQuoted? rest) := by
  rw [scanQuoted, head?_place h]
  split
  · next hquote =>
    obtain ⟨behind, rfl⟩ := List.head?_eq_some_iff.1 hquote
    have hbehind : behind <:+ input := (List.suffix_cons _ behind).trans h
    have hclose : behind.dropWhile (· != '\'') <:+ input :=
      (List.dropWhile_suffix _).trans hbehind
    have hcontent : behind.takeWhile (· != '\'') ++ behind.dropWhile (· != '\'') <:+ input := by
      rwa [List.takeWhile_append_dropWhile]
    have hslice := slice_place hcontent
    rw [List.takeWhile_append_dropWhile] at hslice
    rw [place_tail h, skip_place _ hbehind, ok_bind, splitQuoted?]
    cases hdrop : behind.dropWhile (· != '\'') with
    | nil =>
      rw [hdrop] at hclose
      rw [if_neg fun hlt => (place_lt_iff hclose).1 hlt rfl]
      rfl
    | cons quote left =>
      rw [hdrop] at hclose hslice
      rw [if_pos ((place_lt_iff hclose).2 (List.cons_ne_nil _ _)), hslice, ok_bind,
        place_tail hclose]
      rfl
  · next hquote =>
    have hsplit : splitQuoted? rest = none := by
      unfold splitQuoted?
      split
      · exact absurd rfl hquote
      · rfl
    rw [hsplit]
    rfl

theorem scanName_place (h : rest <:+ input) :
    scanName input (place input rest) = standing input (splitName? rest) := by
  have hparts : rest.takeWhile isNameChar ++ rest.dropWhile isNameChar <:+ input := by
    rwa [List.takeWhile_append_dropWhile]
  have hplace := place_append hparts
  have hslice := slice_place hparts
  rw [List.takeWhile_append_dropWhile] at hplace hslice
  rw [scanName, skip_place _ h, ok_bind, splitName?]
  cases hname : rest.takeWhile isNameChar with
  | nil =>
    rw [if_pos (by rw [hplace, hname]; rfl)]
    rfl
  | cons c name =>
    rw [hname] at hplace hslice
    rw [if_neg (by rw [hplace, List.length_cons]; omega), hslice]
    rfl

/-- What stands behind the group that goes on with a text, where `depth` parentheses are open. -/
def behindGroup? (depth : Nat) (text : List Char) : Option (List Char) :=
  (Reference.closeFrom depth none text).map Prod.snd

/-- A quote is passed over up to its end. -/
theorem closeFrom_quoted (depth : Nat) (quote : Char) (text : List Char) :
    (Reference.closeFrom depth (some quote) text).map Prod.snd =
      match text.dropWhile (· != quote) with
      | _ :: left => behindGroup? depth left
      | [] => none := by
  induction text with
  | nil => rfl
  | cons c rest ih =>
    rw [Reference.closeFrom, Option.map_map]
    by_cases hquote : c = quote
    · rw [if_pos hquote, List.dropWhile_cons_of_neg (by simp [hquote])]
      rfl
    · rw [if_neg hquote, List.dropWhile_cons_of_pos (by simp [hquote])]
      exact ih

theorem behindGroup?_cons (depth : Nat) (c : Char) (rest : List Char) :
    behindGroup? depth (c :: rest) =
      if c = '(' then behindGroup? (depth + 1) rest
      else if c = ')' then if depth - 1 = 0 then some rest else behindGroup? (depth - 1) rest
      else if Reference.isQuote c then
        match rest.dropWhile (· != c) with
        | _ :: left => behindGroup? depth left
        | [] => none
      else behindGroup? depth rest := by
  rw [behindGroup?, Reference.closeFrom]
  split
  · next hcloses =>
    obtain ⟨rfl, hdepth⟩ := hcloses
    rw [if_neg (by decide), if_pos rfl, if_pos (by omega)]
    rfl
  · next hopen =>
    rw [Option.map_map]
    by_cases hleft : c = '('
    · subst hleft
      rfl
    · by_cases hright : c = ')'
      · subst hright
        have hdepth : ¬ depth - 1 = 0 := fun hdepth => hopen ⟨rfl, by omega⟩
        simp only [if_neg hleft, if_pos, if_neg hdepth]
        rfl
      · by_cases hquote : Reference.isQuote c = true
        · rw [if_neg hleft, if_neg hright, if_pos hquote, ← closeFrom_quoted]
          simp only [if_neg hleft, if_neg hright, if_pos hquote]
          rfl
        · simp only [if_neg hleft, if_neg hright, if_neg hquote]
          rfl

theorem scanGroup_place {fuel : Nat} (depth : Nat) (hfuel : rest.length < fuel)
    (h : rest <:+ input) :
    scanGroup input fuel depth (place input rest) =
      (behindGroup? depth rest).elim (.error .malformed) (.ok <| place input ·) := by
  induction fuel generalizing rest depth with
  | zero => exact absurd hfuel (Nat.not_lt_zero _)
  | succ fuel ih =>
    cases rest with
    | nil =>
      rw [scanGroup, if_neg fun hlt => (place_lt_iff h).1 hlt rfl]
      rfl
    | cons c rest =>
      have htail : rest <:+ input := (List.suffix_cons c rest).trans h
      have hless : rest.length < fuel := Nat.lt_of_succ_lt_succ hfuel
      rw [scanGroup, if_pos ((place_lt_iff h).2 (List.cons_ne_nil _ _)), charAt_place h, ok_bind,
        behindGroup?_cons, place_tail h]
      split
      · exact ih _ hless htail
      · split
        · split
          · rfl
          · exact ih _ hless htail
        · split
          · have hclose : rest.dropWhile (· != c) <:+ input := (List.dropWhile_suffix _).trans htail
            rw [skip_place _ htail, ok_bind]
            cases hdrop : rest.dropWhile (· != c) with
            | nil =>
              rw [hdrop] at hclose
              rw [if_neg fun hlt => (place_lt_iff hclose).1 hlt rfl]
              rfl
            | cons quote left =>
              have hbehind : rest.dropWhile (· != c) <:+ rest := List.dropWhile_suffix _
              rw [hdrop] at hclose hbehind
              have hlength := hbehind.length_le
              rw [List.length_cons] at hlength
              rw [if_pos ((place_lt_iff hclose).2 (List.cons_ne_nil _ _)), place_tail hclose]
              exact ih _ (by omega) ((List.suffix_cons _ _).trans hclose)
          · exact ih _ hless htail

theorem previous_of_pos {pos : Nat} (h : 0 < pos) : previous pos = .ok (pos - 1) := by
  obtain ⟨pos, rfl⟩ := Nat.exists_eq_succ_of_ne_zero (Nat.ne_of_gt h)
  rfl

theorem scanReference_place (h : rest <:+ input) (hpos : 0 < place input rest) :
    scanReference input (place input rest - 1) =
      (Reference.splitGroup? rest).elim (.error .malformed) (.ok <| place input ·.2) := by
  rw [scanReference, Nat.sub_add_cancel hpos,
    scanGroup_place 0 (Nat.lt_succ_of_le h.length_le) h, behindGroup?, Reference.splitGroup?]
  cases Reference.closeFrom 0 none rest <;> rfl

/-- The arguments of a function, and the position behind them. -/
theorem scanArguments_place {name : List Char} (h : rest <:+ input) (hpos : 0 < place input rest)
    (hparen : rest.head? = some '(') :
    (do
      let stop ← scanReference input (← previous (place input rest))
      let inner ← slice input (place input rest + 1) (← previous stop)
      return (ItemTransform.function (.ofList name) (.ofList (Text.trimmed inner)), stop)) =
      standing input ((Reference.splitGroup? rest).map fun (group, left) =>
        (.function (.ofList name) (.ofList (Text.trimmed (inside group))), left)) := by
  rw [previous_of_pos hpos, ok_bind, scanReference_place h hpos]
  cases hgroup : Reference.splitGroup? rest with
  | none => rfl
  | some parts =>
    obtain ⟨group, left⟩ := parts
    obtain ⟨inner, rfl⟩ := (Reference.isGroup_of_splitGroup? hparen hgroup).exists_eq
    obtain rfl : rest = '(' :: (inner ++ ')' :: left) := by
      rw [← Reference.splitGroup?_append hgroup]
      simp
    have hinner : inner ++ ')' :: left <:+ input := (List.suffix_cons _ _).trans h
    have hright : ')' :: left <:+ input := (List.suffix_append _ _).trans hinner
    have hstop : previous (place input left) = .ok (place input (')' :: left)) := by
      rw [← place_tail hright]
      rfl
    rw [Option.elim_some, ok_bind, hstop, ok_bind, place_tail h, slice_place hinner, ok_bind,
      Option.map_some]
    simp only [standing, inside_cons_append]
    rfl

theorem scanTransform_place (h : rest <:+ input) :
    scanTransform input (place input rest) = standing input (splitTransform? rest) := by
  rw [scanTransform, head?_place h, splitTransform?]
  split
  · rw [scanQuoted_place h]
    cases splitQuoted? rest <;> rfl
  · rw [scanName_place h]
    cases hname : splitName? rest with
    | none => rfl
    | some parts =>
      obtain ⟨name, behind⟩ := parts
      obtain ⟨hvalid, rfl, -⟩ := splitName?_eq_some_iff.1 hname
      have hbehind : behind <:+ input := (List.suffix_append name behind).trans h
      have hblanks : dropBlanks behind <:+ input := (Text.dropBlanks_suffix behind).trans hbehind
      -- The name stands in front of the parenthesis, so that has a predecessor.
      have hpos : 0 < place input (dropBlanks behind) := by
        have hplace := place_append h
        have hname := List.length_pos_iff.2 (Character.isName_iff.1 hvalid).1
        have hless := (Text.dropBlanks_suffix behind).length_le
        have hlength := hbehind.length_le
        rw [place] at hplace ⊢
        omega
      simp only [standing, ok_bind, Option.bind_eq_bind, Option.bind_some]
      rw [skip_place _ hbehind, ok_bind, ← dropBlanks, head?_place hblanks]
      split
      · next hparen =>
        rw [scanArguments_place hblanks hpos hparen, Option.map_eq_bind]
        rfl
      · rfl

theorem arrow_place (h : rest <:+ input) :
    input[place input rest]? = some '-' ∧ input[place input rest + 1]? = some '>' ↔
      ∃ behind, rest = '-' :: '>' :: behind := by
  rw [head?_place h, getElem?_place h]
  match rest with
  | [] => simp
  | [c] => simp
  | c :: d :: behind => simp

theorem scanTransforms_plain {fuel : Nat} (h : rest <:+ input)
    (hplain : ∀ behind, dropBlanks rest ≠ '-' :: '>' :: behind) :
    scanTransforms input (fuel + 1) (place input rest) =
      standing input (splitTransforms? fuel rest) := by
  have hblanks : dropBlanks rest <:+ input := (Text.dropBlanks_suffix rest).trans h
  rw [scanTransforms, skip_place _ h, ok_bind, ← dropBlanks,
    if_neg fun harrow => not_exists.2 hplain ((arrow_place hblanks).1 harrow),
    splitTransforms?_plain hplain]
  rfl

theorem scanTransforms_place {fuel : Nat} (hfuel : rest.length ≤ fuel) (h : rest <:+ input) :
    scanTransforms input (fuel + 1) (place input rest) =
      standing input (splitTransforms? fuel rest) := by
  induction fuel generalizing rest with
  | zero =>
    obtain rfl := List.eq_nil_of_length_eq_zero (Nat.le_zero.1 hfuel)
    exact scanTransforms_plain h nofun
  | succ fuel ih =>
    by_cases harrow : ∃ behind, dropBlanks rest = '-' :: '>' :: behind
    · have hblanks := Text.dropBlanks_suffix rest
      have hfound := (arrow_place (hblanks.trans h)).2 harrow
      obtain ⟨behind, hdrop⟩ := harrow
      rw [hdrop] at hblanks
      have hless := hblanks.length_le
      simp only [List.length_cons] at hless
      have hinput := hblanks.trans h
      have hgreater : '>' :: behind <:+ input := (List.suffix_cons _ _).trans hinput
      have hbehind : behind <:+ input := (List.suffix_cons _ _).trans hgreater
      have htransform : dropBlanks behind <:+ input :=
        (Text.dropBlanks_suffix behind).trans hbehind
      have hplace : place input ('-' :: '>' :: behind) + 2 = place input behind := by
        rw [← place_tail hgreater, ← place_tail hinput]
      rw [scanTransforms, skip_place _ h, ok_bind, ← dropBlanks, if_pos hfound,
        splitTransforms?_arrow hdrop, hdrop, hplace, skip_place _ hbehind, ok_bind, ← dropBlanks,
        scanTransform_place htransform]
      cases hsplit : splitTransform? (dropBlanks behind) with
      | none => rfl
      | some parts =>
        obtain ⟨transform, left⟩ := parts
        have hleft : left <:+ dropBlanks behind := by
          obtain ⟨written, htext, -⟩ := exists_written_of_splitTransform? hsplit
          exact htext ▸ List.suffix_append _ _
        have hlength : left.length ≤ fuel := by
          have hbehindLength := (hleft.trans (Text.dropBlanks_suffix behind)).length_le
          omega
        simp only [standing, ok_bind, Option.bind_some]
        rw [ih hlength (hleft.trans htransform)]
        cases splitTransforms? fuel left <;> rfl
    · exact scanTransforms_plain h (not_exists.1 harrow)

/-- The separator, after which the text has to end. -/
theorem scanSeparator_place (h : rest <:+ input) (finish : Option String → Scan ItemListReference) :
    (do
      let (separator, pos) ← scanSeparator input (place input rest)
      if pos = input.length then finish separator else .error .malformed) =
      (ending? rest).elim (.error .malformed) finish := by
  rw [scanSeparator, head?_place h]
  split
  · next hcomma =>
    obtain ⟨behind, rfl⟩ := List.head?_eq_some_iff.1 hcomma
    have hbehind : behind <:+ input := (List.suffix_cons _ behind).trans h
    have hblanks : dropBlanks behind <:+ input := (Text.dropBlanks_suffix behind).trans hbehind
    rw [place_tail h, skip_place _ hbehind, ok_bind, ← dropBlanks, scanQuoted_place hblanks,
      ending?]
    cases hsplit : splitQuoted? (dropBlanks behind) with
    | none => rfl
    | some parts =>
      obtain ⟨separator, left⟩ := parts
      obtain ⟨quoted, htext, -⟩ := splitQuoted?_eq_some_iff.1 hsplit
      have hleft : left <:+ input := (htext ▸ List.suffix_append _ _).trans hblanks
      have hend : dropBlanks left <:+ input := (Text.dropBlanks_suffix left).trans hleft
      simp only [standing, ok_bind]
      rw [skip_place _ hleft, ok_bind, ← dropBlanks]
      simp only [pure_bind, place_eq_length_iff hend, List.isEmpty_iff]
      split <;> rfl
  · next hcomma =>
    rw [pure_bind]
    simp only [place_eq_length_iff h]
    cases rest with
    | nil => rfl
    | cons c behind =>
      have hending : ending? (c :: behind) = none := by
        unfold ending?
        split
        · next heq => cases heq
        · next heq => exact absurd (heq ▸ rfl) hcomma
        · rfl
      rw [if_neg (List.cons_ne_nil _ _), hending]
      rfl

/-- The scan is the reading: the same texts are references, with the same parts, and no position is
used that lies outside of the text. -/
theorem scan_eq (input : List Char) :
    scan input = (ofChars? input).elim (.error .malformed) .ok := by
  have hblanks := Text.dropBlanks_suffix input
  have hskip := skip_place isBlank (List.suffix_refl input)
  rw [place_self] at hskip
  rw [scan, hskip, ok_bind, ← dropBlanks, scanName_place hblanks, ofChars?]
  cases hname : splitName? (dropBlanks input) with
  | none => rfl
  | some parts =>
    obtain ⟨name, behind⟩ := parts
    have hbehind : behind <:+ input := by
      obtain ⟨-, htext, -⟩ := splitName?_eq_some_iff.1 hname
      rw [htext] at hblanks
      exact (List.suffix_append _ _).trans hblanks
    have hlength : input.length - place input behind = behind.length := by
      have hless := hbehind.length_le
      rw [place]
      omega
    simp only [standing, ok_bind, Option.bind_eq_bind, Option.bind_some]
    rw [hlength, scanTransforms_place (Nat.le_refl _) hbehind]
    cases htransforms : splitTransforms? behind.length behind with
    | none => rfl
    | some parts =>
      obtain ⟨transforms, left⟩ := parts
      simp only [standing, ok_bind, Option.bind_some]
      have hleft : left <:+ input := by
        obtain ⟨steps, gap, htext, -, -⟩ :=
          exists_steps_of_splitTransforms? (Nat.le_refl _) htransforms
        rw [htext, ← List.append_assoc] at hbehind
        exact (List.suffix_append _ _).trans hbehind
      refine (scanSeparator_place hleft fun separator =>
        .ok ⟨.ofList name, transforms, separator⟩).trans ?_
      cases ending? left <;> rfl

end Scanner

/-! ## References and their texts -/

/-- A text is read as a reference exactly if it is one way to write it, with any blanks where they
may stand and the arguments of functions up to the parenthesis that closes them; each way is read
back, and no text is written in two.  A position that moves over the text finds the same, and never
leaves it. -/
theorem parse_written :
    (∀ text reference, parse text = .ok reference ↔
      ∃ written : Written, written.text = text.toList ∧ written.reference = reference) ∧
    (∀ written : Written, parse (.ofList written.text) = .ok written.reference) ∧
    (∀ written written' : Written, written.text = written'.text → written = written') ∧
    ∀ text : String, Scanner.scan text.toList = (parse text).mapError fun _ => .malformed := by
  have hparse : ∀ text reference, parse text = .ok reference ↔
      ∃ written : Written, written.text = text.toList ∧ written.reference = reference := by
    intro text reference
    rw [← ofChars?_eq_some_iff, parse]
    cases ofChars? text.toList <;> simp
  refine ⟨hparse, fun written => ?_, fun _ _ => Written.eq_of_text_eq, fun text => ?_⟩
  · exact (hparse _ _).2 ⟨written, String.toList_ofList.symm, rfl⟩
  · rw [Scanner.scan_eq, parse]
    cases ofChars? text.toList <;> rfl

/-- One blank. -/
def Blanks.one : Blanks := ⟨[' '], List.forall_mem_singleton.2 (by decide)⟩

/-- The reference ` Src -> '%(Filename).obj' ->Count( ) , '|' ` and its parts. -/
def Written.spaced : Written where
  before := .one
  name := ⟨['S', 'r', 'c'], by decide +kernel⟩
  steps := [
    ⟨.one, .one, .expression ⟨"%(Filename).obj".toList, by decide +kernel⟩⟩,
    ⟨.one, .none, .function ⟨['C', 'o', 'u', 'n', 't'], by decide +kernel⟩ .none
      ⟨['(', ' ', ')'], by decide, by decide⟩⟩]
  gap := .one
  ending := some ⟨.one, ⟨['|'], by decide⟩, .one⟩

theorem parse_written_spaced :
    parse " Src -> '%(Filename).obj' ->Count( ) , '|' " =
      .ok ⟨"Src", [.expression "%(Filename).obj", .function "Count" ""], some "|"⟩ ∧
    (∀ written : Written,
      written.text = " Src -> '%(Filename).obj' ->Count( ) , '|' ".toList → written = .spaced) ∧
    Scanner.scan " Src -> '%(Filename).obj' ->Count( ) , '|' ".toList =
      .ok ⟨"Src", [.expression "%(Filename).obj", .function "Count" ""], some "|"⟩ := by
  obtain ⟨hparse, -, hunique, hscan⟩ := parse_written
  have hread : parse " Src -> '%(Filename).obj' ->Count( ) , '|' " =
      .ok ⟨"Src", [.expression "%(Filename).obj", .function "Count" ""], some "|"⟩ :=
    (hparse _ _).2 ⟨.spaced, by decide +kernel, by decide +kernel⟩
  refine ⟨hread, fun written h => hunique written .spaced (h.trans (by decide +kernel)), ?_⟩
  rw [hscan, hread]
  rfl

end ItemListReference

end CondLang
