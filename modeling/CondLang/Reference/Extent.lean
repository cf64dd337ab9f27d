/-!
# Where a reference ends

A reference is a sigil and a group: `$(…)` for a property, `@(…)` for an item list, `%(…)` for
metadata.  The group ends at the parenthesis that closes its first one; parentheses inside it are
balanced, and text between two equal quotes (`'`, `"` or a backquote) is passed over, so
`$(A.Replace(')', 'x'))` is one reference.

`closeFrom` finds that end while it goes over the characters once, and `front` says what a text
starts with: a reference, one that never closes, or neither.  `closeFrom_append` and `front_append`
say that what was split off and what is left are the text.
-/

namespace CondLang

/-- The three kinds of reference. -/
inductive ReferenceKind where
  | property
  | itemList
  | metadata
  deriving DecidableEq, Repr, Inhabited

namespace ReferenceKind

/-- The character that announces a reference of this kind. -/
def sigil : ReferenceKind → Char
  | property => '$'
  | itemList => '@'
  | metadata => '%'

/-- The kind a sigil announces. -/
def ofSigil? (c : Char) : Option ReferenceKind :=
  if c = '$' then some property
  else if c = '@' then some itemList
  else if c = '%' then some metadata
  else none

/-- The words for this kind in messages. -/
def words : ReferenceKind → String
  | property => "property"
  | itemList => "item list"
  | metadata => "item metadata"

@[simp] theorem ofSigil?_sigil (kind : ReferenceKind) : ofSigil? kind.sigil = some kind := by
  cases kind <;> rfl

theorem ofSigil?_eq_some_iff {c : Char} {kind : ReferenceKind} :
    ofSigil? c = some kind ↔ c = kind.sigil := by
  constructor
  · intro h
    unfold ofSigil? at h
    split at h
    · simp_all [← Option.some.inj h, sigil]
    · split at h
      · simp_all [← Option.some.inj h, sigil]
      · split at h
        · simp_all [← Option.some.inj h, sigil]
        · cases h
  · rintro rfl
    simp

end ReferenceKind

namespace Reference

/-- The quotes whose text a group passes over. -/
def isQuote (c : Char) : Bool := c == '\'' || c == '"' || c == '\u0060'

/-- Splits a text behind the parenthesis that brings the depth down to nothing.  `depth` counts the
parentheses open so far and `quote` is the quote inside which the text starts, if any. -/
def closeFrom : Nat → Option Char → List Char → Option (List Char × List Char)
  | _, _, [] => none
  | depth, some quote, c :: rest =>
      (closeFrom depth (if c = quote then none else some quote) rest).map
        fun (group, left) => (c :: group, left)
  | depth, none, c :: rest =>
      if c = ')' ∧ depth ≤ 1 then some ([c], rest)
      else
        let depth := if c = '(' then depth + 1 else if c = ')' then depth - 1 else depth
        let quote := if isQuote c then some c else none
        (closeFrom depth quote rest).map fun (group, left) => (c :: group, left)

/-- Splits a text that starts with a group behind that group; `none` if the group never closes. -/
def splitGroup? (text : List Char) : Option (List Char × List Char) := closeFrom 0 none text

/-- The kind of the reference that starts a text: a sigil and a parenthesis right behind it. -/
def opening? : List Char → Option ReferenceKind
  | sigil :: '(' :: _ => ReferenceKind.ofSigil? sigil
  | _ => none

/-- What a text starts with: a reference, whose sigil is that of its kind and which is followed by
what is left; one that never closes; or no reference. -/
inductive Front where
  | closed (kind : ReferenceKind) (group left : List Char)
  | unclosed (kind : ReferenceKind)
  | plain
  deriving DecidableEq, Repr

/-- What a text starts with. -/
def front (text : List Char) : Front :=
  match opening? text with
  | some kind =>
      match splitGroup? (text.drop 1) with
      | some (group, left) => .closed kind group left
      | none => .unclosed kind
  | none => .plain

/-- The offset behind the reference whose sigil stands at `start`; `none` if it never closes. -/
def endOffset? (text : List Char) (start : Nat) : Option Nat :=
  (splitGroup? (text.drop (start + 1))).map fun (group, _) => start + 1 + group.length

/-! ## The parts make up the text -/

theorem closeFrom_append {depth : Nat} {quote : Option Char} {text group left : List Char}
    (h : closeFrom depth quote text = some (group, left)) : group ++ left = text := by
  induction text generalizing depth quote group left with
  | nil => simp [closeFrom] at h
  | cons c rest ih =>
    cases quote with
    | some q =>
      simp only [closeFrom, Option.map_eq_some_iff] at h
      obtain ⟨⟨inner, after⟩, hclose, hsame⟩ := h
      cases hsame
      simp [ih hclose]
    | none =>
      simp only [closeFrom] at h
      split at h
      · cases h
        rfl
      · simp only [Option.map_eq_some_iff] at h
        obtain ⟨⟨inner, after⟩, hclose, hsame⟩ := h
        cases hsame
        simp [ih hclose]

theorem splitGroup?_append {text group left : List Char}
    (h : splitGroup? text = some (group, left)) : group ++ left = text :=
  closeFrom_append h

theorem eq_cons_of_opening? {text : List Char} {kind : ReferenceKind}
    (h : opening? text = some kind) : ∃ rest, text = kind.sigil :: '(' :: rest := by
  unfold opening? at h
  split at h
  · exact ⟨_, by rw [ReferenceKind.ofSigil?_eq_some_iff.1 h]⟩
  · cases h

theorem front_append {text group left : List Char} {kind : ReferenceKind}
    (h : front text = .closed kind group left) : kind.sigil :: group ++ left = text := by
  unfold front at h
  split at h
  · next hopening =>
    obtain ⟨rest, rfl⟩ := eq_cons_of_opening? hopening
    split at h
    · next hsplit =>
      cases h
      simpa using splitGroup?_append hsplit
    · cases h
  · cases h

/-- What is left behind a reference is shorter than the text. -/
theorem length_left_lt {text group left : List Char} {kind : ReferenceKind}
    (h : front text = .closed kind group left) : left.length < text.length := by
  rw [← front_append h]
  simp only [List.length_append, List.length_cons]
  omega

end Reference

end CondLang
