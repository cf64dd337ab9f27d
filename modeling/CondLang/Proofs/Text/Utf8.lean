import CondLang.Text.Utf8
import Mathlib.Tactic.SplitIfs

/-!
# Bytes read back as text

The reader of UTF-8 goes on byte by byte: `step` is what a byte adds to the text and what it leaves
unfinished, and `decodeFrom_cons` says that this is all the reader does.

* What was written is read back (`decodeFrom_bytesOf`), also behind a character that was cut off.
* An ASCII character stands for itself and ends whatever came before it, so a text may be read in
  parts between such characters (`decode_append_ascii`).
* A byte adds at most one character, where a character begun counts as one (`length_step_le`).
-/

namespace CondLang.Text.Utf8

/-! ## One byte at a time -/

/-- What a byte adds between two characters, and the character that it leaves unfinished. -/
def startAt (byte : Nat) : List Char × Option Pending :=
  match lead byte with
  | .none => ([replacement], none)
  | .whole c => ([c], none)
  | .more pending => ([], some pending)

/-- What a byte adds, and the character that it leaves unfinished. -/
def step : Option Pending → Nat → List Char × Option Pending
  | none, byte => startAt byte
  | some pending, byte =>
      if pending.least ≤ byte ∧ byte ≤ pending.greatest then
        let bits := pending.bits * 0x40 + (byte - 0x80)
        if pending.due = 1 then ([Char.ofNat bits], none)
        else ([], some ⟨bits, pending.due - 1, 0x80, 0xBF⟩)
      else (replacement :: (startAt byte).1, (startAt byte).2)

theorem decodeFrom_cons (state : Option Pending) (byte : Nat) (rest : List Nat) :
    decodeFrom state (byte :: rest) =
      (step state byte).1 ++ decodeFrom (step state byte).2 rest := by
  cases state with
  | none =>
    rw [decodeFrom, step, startAt]
    cases lead byte <;> rfl
  | some pending =>
    rw [decodeFrom, step, startAt]
    split
    · split <;> rfl
    · cases lead byte <;> rfl

/-- Only bytes that continue a character may come next, if one is unfinished. -/
def Continuing (state : Option Pending) : Prop :=
  ∀ pending ∈ state, 0x80 ≤ pending.least ∧ pending.greatest ≤ 0xBF

theorem continuing_none : Continuing none := nofun

theorem continuing_of_lead {byte : Nat} {pending : Pending} (h : lead byte = .more pending) :
    0x80 ≤ pending.least ∧ pending.greatest ≤ 0xBF := by
  unfold lead at h
  split_ifs at h <;> simp only [Lead.more.injEq] at h <;> simp [← h]

theorem continuing_startAt (byte : Nat) : Continuing (startAt byte).2 := by
  intro pending hpending
  unfold startAt at hpending
  split at hpending
  · cases hpending
  · cases hpending
  · next hlead =>
    cases hpending
    exact continuing_of_lead hlead

theorem Continuing.step {state : Option Pending} (h : Continuing state) (byte : Nat) :
    Continuing (step state byte).2 := by
  cases state with
  | none => exact continuing_startAt byte
  | some pending =>
    rw [Utf8.step]
    split
    · split
      · exact continuing_none
      · intro next hnext
        obtain rfl := Option.mem_some_iff.1 hnext
        exact ⟨Nat.le_refl _, Nat.le_refl _⟩
    · exact continuing_startAt byte

/-- A byte that continues no character ends the one that is unfinished. -/
theorem decodeFrom_some_cons {pending : Pending} (h : Continuing (some pending)) {byte : Nat}
    (hbyte : byte < 0x80 ∨ 0xBF < byte) (rest : List Nat) :
    decodeFrom (some pending) (byte :: rest) = replacement :: decodeFrom none (byte :: rest) := by
  obtain ⟨hleast, hgreatest⟩ := h pending rfl
  have hout : ¬ (pending.least ≤ byte ∧ byte ≤ pending.greatest) := by omega
  simp only [decodeFrom_cons, step, if_neg hout, List.cons_append]

/-! ## What was written is read -/

/-- The first byte of three leaves out what is written with fewer, and surrogates. -/
theorem exists_lead_three {byte : Nat} (hleast : 0xE0 ≤ byte) (hgreatest : byte < 0xF0) :
    ∃ pending, lead byte = .more pending ∧ pending.bits = byte - 0xE0 ∧ pending.due = 2 ∧
      ∀ next, 0x80 ≤ next → next ≤ 0xBF → (byte = 0xE0 → 0xA0 ≤ next) →
        (byte = 0xED → next ≤ 0x9F) → pending.least ≤ next ∧ next ≤ pending.greatest := by
  unfold lead
  rw [if_neg (by omega), if_neg (by omega), if_neg (by omega)]
  split_ifs with h1 h2
  · exact ⟨_, rfl, by simp only; omega, rfl, fun next _ _ hleast _ => ⟨hleast h1, by assumption⟩⟩
  · exact ⟨_, rfl, by simp only; omega, rfl,
      fun next _ _ _ hgreatest => ⟨by assumption, hgreatest h2⟩⟩
  · exact ⟨_, rfl, rfl, rfl, fun next hleast hgreatest _ _ => ⟨hleast, hgreatest⟩⟩

/-- The first byte of four leaves out what is written with fewer, and what is no code point. -/
theorem exists_lead_four {byte : Nat} (hleast : 0xF0 ≤ byte) (hgreatest : byte ≤ 0xF4) :
    ∃ pending, lead byte = .more pending ∧ pending.bits = byte - 0xF0 ∧ pending.due = 3 ∧
      ∀ next, 0x80 ≤ next → next ≤ 0xBF → (byte = 0xF0 → 0x90 ≤ next) →
        (byte = 0xF4 → next ≤ 0x8F) → pending.least ≤ next ∧ next ≤ pending.greatest := by
  unfold lead
  rw [if_neg (by omega), if_neg (by omega), if_neg (by omega), if_neg (by omega),
    if_neg (by omega), if_neg (by omega)]
  split_ifs with h1 h2 h3
  · exact ⟨_, rfl, by simp only; omega, rfl, fun next _ _ hleast _ => ⟨hleast h1, by assumption⟩⟩
  · exact ⟨_, rfl, rfl, rfl, fun next hleast hgreatest _ _ => ⟨hleast, hgreatest⟩⟩
  · exact ⟨_, rfl, by simp only; omega, rfl,
      fun next _ _ _ hgreatest => ⟨by assumption, hgreatest h3⟩⟩
  · omega

/-- The bytes of a character are read as the character. -/
theorem decodeFrom_bytesOf (c : Char) (rest : List Nat) :
    decodeFrom none (bytesOf c.toNat ++ rest) = c :: decodeFrom none rest := by
  have hvalid : c.toNat < 0xD800 ∨ 0xDFFF < c.toNat ∧ c.toNat < 0x110000 := c.valid
  have hchar : ∀ bits, bits = c.toNat → Char.ofNat bits = c := by
    rintro bits rfl
    exact Char.ofNat_toNat c
  generalize c.toNat = code at *
  unfold bytesOf
  split_ifs with h1 h2 h3
  · have hlead : lead code = .whole (Char.ofNat code) := by rw [lead, if_pos h1]
    simp only [List.cons_append, List.nil_append, decodeFrom, hlead, hchar code rfl]
  · have hlead : lead (0xC0 + code / 0x40) = .more ⟨code / 0x40, 1, 0x80, 0xBF⟩ := by
      rw [lead, if_neg (by omega), if_neg (by omega), if_pos (by omega), Nat.add_sub_cancel_left]
    simp only [List.cons_append, List.nil_append, decodeFrom, hlead]
    rw [if_pos (by omega), if_pos trivial, hchar _ (by omega)]
  · obtain ⟨pending, hlead, hbits, hdue, hrange⟩ :=
      exists_lead_three (show 0xE0 ≤ 0xE0 + code / 0x1000 by omega) (by omega)
    have hsecond := hrange (0x80 + code / 0x40 % 0x40) (by omega) (by omega) (by omega) (by omega)
    simp only [List.cons_append, List.nil_append, decodeFrom, hlead]
    rw [if_pos hsecond, if_neg (by omega), hdue, hbits, if_pos (by omega), if_pos rfl,
      hchar _ (by omega)]
  · obtain ⟨pending, hlead, hbits, hdue, hrange⟩ :=
      exists_lead_four (show 0xF0 ≤ 0xF0 + code / 0x40000 by omega) (by omega)
    have hsecond := hrange (0x80 + code / 0x1000 % 0x40) (by omega) (by omega) (by omega)
      (by omega)
    simp only [List.cons_append, List.nil_append, decodeFrom, hlead]
    rw [if_pos hsecond, if_neg (by omega), hdue, hbits, if_pos (by omega), if_neg (by omega),
      if_pos (by omega), if_pos rfl, hchar _ (by omega)]

theorem bytesOf_of_ascii {code : Nat} (h : code < 0x80) : bytesOf code = [code] := if_pos h

/-- No byte of a character that is not ASCII is one, and the first one continues no character. -/
theorem exists_bytesOf_eq_cons {code : Nat} (h : 0x80 ≤ code) :
    ∃ first others, bytesOf code = first :: others ∧ 0xBF < first ∧ ∀ b ∈ others, 0x80 ≤ b := by
  unfold bytesOf
  split_ifs with h1 h2 h3
  · omega
  · exact ⟨_, _, rfl, by omega, by simp⟩
  · exact ⟨_, _, rfl, by omega, by simp⟩
  · exact ⟨_, _, rfl, by omega, by simp⟩

/-- The bytes of a character end the one that is unfinished. -/
theorem decodeFrom_some_bytesOf {pending : Pending} (h : Continuing (some pending)) (c : Char)
    (rest : List Nat) :
    decodeFrom (some pending) (bytesOf c.toNat ++ rest) =
      replacement :: c :: decodeFrom none rest := by
  rw [← decodeFrom_bytesOf]
  by_cases hascii : c.toNat < 0x80
  · rw [bytesOf_of_ascii hascii]
    exact decodeFrom_some_cons h (.inl hascii) rest
  · obtain ⟨first, others, hbytes, hfirst, -⟩ := exists_bytesOf_eq_cons (Nat.not_lt.1 hascii)
    rw [hbytes]
    exact decodeFrom_some_cons h (.inr hfirst) _

/-- A text that was written is read back. -/
theorem decode_encode (text : List Char) : decode (encode text) = text := by
  induction text with
  | nil => rfl
  | cons c rest ih =>
    rw [decode, encode, List.flatMap_cons, decodeFrom_bytesOf]
    exact congrArg (c :: ·) ih

/-! ## Parts of a text -/

/-- An ASCII character ends whatever comes before it. -/
theorem decodeFrom_append_ascii {state : Option Pending} (hstate : Continuing state)
    (before : List Nat) {byte : Nat} (hbyte : byte < 0x80) (behind : List Nat) :
    decodeFrom state (before ++ byte :: behind) =
      decodeFrom state before ++ Char.ofNat byte :: decodeFrom none behind := by
  induction before generalizing state with
  | nil =>
    have hwhole : decodeFrom none (byte :: behind) = Char.ofNat byte :: decodeFrom none behind := by
      rw [decodeFrom, lead, if_pos hbyte]
    cases state with
    | none => exact hwhole
    | some pending =>
      rw [List.nil_append, decodeFrom_some_cons hstate (.inl hbyte), hwhole]
      rfl
  | cons first before ih =>
    rw [List.cons_append, decodeFrom_cons, decodeFrom_cons, ih (hstate.step first),
      List.append_assoc]

theorem decode_append_ascii (before : List Nat) {byte : Nat} (hbyte : byte < 0x80)
    (behind : List Nat) :
    decode (before ++ byte :: behind) = decode before ++ Char.ofNat byte :: decode behind :=
  decodeFrom_append_ascii continuing_none before hbyte behind

/-! ## How long a text is -/

/-- The characters that an unfinished character will come to at least. -/
def owed : Option Pending → Nat
  | none => 0
  | some _ => 1

theorem length_startAt (byte : Nat) :
    (startAt byte).1.length + owed (startAt byte).2 = 1 := by
  rw [startAt]
  cases lead byte <;> rfl

/-- A byte adds at most one character, begun or finished. -/
theorem length_step_le (state : Option Pending) (byte : Nat) :
    (step state byte).1.length + owed (step state byte).2 ≤ owed state + 1 := by
  have hstart := length_startAt byte
  cases state with
  | none => exact Nat.le_of_eq hstart
  | some pending =>
    rw [step]
    split_ifs
    · simp [owed]
    · simp [owed]
    · show (startAt byte).1.length + 1 + owed (startAt byte).2 ≤ 1 + 1
      omega

end CondLang.Text.Utf8
