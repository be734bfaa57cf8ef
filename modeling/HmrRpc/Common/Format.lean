import Mathlib.Algebra.BigOperators.Group.List.Basic
import Mathlib.Tactic.Ring

/-!
# Formatted output

A format is taken together with its arguments, as the text and the conversions it consists
of. `vsnprintf` stores what fits its buffer and returns the length of everything it would
have written, so the value returned is a position in the buffer exactly if nothing was cut
off, and then the zero is there already.
-/

namespace HmrRpc.Common

/-- A string in memory: its bytes up to the first zero. -/
structure CString (bytes : ℕ → UInt8) where
  length : ℕ
  inside : ∀ i < length, bytes i ≠ 0
  ends : bytes length = 0

/-- Its bytes without the zero. -/
def CString.text {bytes : ℕ → UInt8} (s : CString bytes) : List UInt8 :=
  (List.range s.length).map bytes

/-- The string that a buffer starts with. -/
def cutAtZero (bytes : List UInt8) : List UInt8 := bytes.takeWhile (· ≠ 0)

/-- The bytes of a text in the source. -/
def ascii (s : String) : List UInt8 := s.toList.map Char.toUInt8

/-- A number in decimal. -/
def decimal (d : ℤ) : List UInt8 :=
  (if d < 0 then ascii "-" else []) ++ (Nat.toDigits 10 d.natAbs).map Char.toUInt8

/-- A piece of a format with its argument: text, `%s`, `%d`, `%u`, or any other conversion with what
it makes of its argument, unless it fails. -/
inductive Piece
  | text (cs : List UInt8)
  | str (s : List UInt8)
  | int (d : Int32)
  | uint (u : UInt32)
  | other (converted : Option (List UInt8))

/-- The bytes a piece gives. -/
def Piece.bytes : Piece → Option (List UInt8)
  | .text cs => some cs
  | .str s => some s
  | .int d => some (decimal d.toInt)
  | .uint u => some (decimal u.toNat)
  | .other converted => converted

/-- The length of a piece. -/
def Piece.length (p : Piece) : ℕ := (p.bytes.getD []).length

/-- No conversion fails. -/
def Converts (format : List Piece) : Prop := ∀ p ∈ format, p.bytes.isSome

/-- The length of the formatted text. -/
def textLength (format : List Piece) : ℕ := (format.map Piece.length).sum

/-- The formatted text up to the first conversion that fails, and whether none does. -/
def formatted : List Piece → List UInt8 × Bool
  | [] => ([], true)
  | p :: rest =>
    match p.bytes with
    | none => ([], false)
    | some bytes => (bytes ++ (formatted rest).1, (formatted rest).2)

/-- What `vsnprintf` stores from the start of its buffer, and what it returns. -/
structure Printed where
  stored : List UInt8
  retval : ℤ

/-- `vsnprintf`, and `snprintf`. It returns `-(failure + 1)` when a conversion fails or the length is
no `int`. -/
def vsnprintf (failure size : ℕ) (format : List Piece) : Printed :=
  let (text, converted) := formatted format
  { stored := if size = 0 then [] else text.take (size - 1) ++ [0]
    retval := if converted ∧ text.length < 2 ^ 31 then text.length else .negSucc failure }

section Text

variable {format : List Piece}

/-- The whole text is formatted unless a conversion fails. -/
theorem formatted_snd : (formatted format).2 ↔ Converts format := by
  induction format with
  | nil => simp [formatted, Converts]
  | cons p rest ih =>
    rw [Converts, List.forall_mem_cons]
    cases hbytes : p.bytes with
    | none => simp [formatted, hbytes]
    | some bytes => simp [formatted, hbytes, ih, Converts]

/-- Its length is the one of the pieces. -/
theorem length_formatted (h : Converts format) : (formatted format).1.length = textLength format := by
  induction format with
  | nil => rfl
  | cons p rest ih =>
    obtain ⟨hp, hrest⟩ := List.forall_mem_cons.mp h
    obtain ⟨bytes, hbytes⟩ := Option.isSome_iff_exists.mp hp
    simp [formatted, textLength, Piece.length, hbytes, ih hrest]

end Text

section Buffer

variable {format : List Piece} {failure size : ℕ}

/-- `vsnprintf` stores as much of the text as fits, and a zero. -/
theorem vsnprintf_stored (hsize : 0 < size) :
    (vsnprintf failure size format).stored = (formatted format).1.take (size - 1) ++ [0] :=
  if_neg (Nat.ne_of_gt hsize)

/-- A text whose length is an `int` has its length returned. -/
theorem vsnprintf_retval (h : Converts format) (hlength : textLength format < 2 ^ 31) :
    (vsnprintf failure size format).retval = textLength format := by
  have hint : (formatted format).1.length < 2 ^ 31 := by rwa [length_formatted h]
  rw [← length_formatted h]
  exact if_pos ⟨formatted_snd.mpr h, hint⟩

/-- The value returned is a position in the buffer exactly if the whole text and its zero fit. -/
theorem vsnprintf_retval_mem (hsize : size ≤ 2 ^ 31) :
    0 ≤ (vsnprintf failure size format).retval ∧ (vsnprintf failure size format).retval < size ↔
      Converts format ∧ textLength format < size := by
  by_cases h : Converts format ∧ textLength format < 2 ^ 31
  · rw [vsnprintf_retval h.1 h.2]
    exact ⟨fun hret => ⟨h.1, by omega⟩, fun hfit => ⟨by omega, by omega⟩⟩
  · have hnot : ¬((formatted format).2 ∧ (formatted format).1.length < 2 ^ 31) := fun hok =>
      have hconverts := formatted_snd.mp hok.1
      h ⟨hconverts, length_formatted hconverts ▸ hok.2⟩
    have hret : (vsnprintf failure size format).retval = .negSucc failure := if_neg hnot
    rw [hret]
    exact ⟨fun hret => absurd hret.1 (by omega), fun hfit => absurd ⟨hfit.1, by omega⟩ h⟩

/-- And then the zero is at that position. -/
theorem vsnprintf_stored_retval (hsize : size ≤ 2 ^ 31) {i : ℕ}
    (hret : (vsnprintf failure size format).retval = i) (hi : i < size) :
    (vsnprintf failure size format).stored[i]? = some 0 := by
  have hmem : 0 ≤ (vsnprintf failure size format).retval ∧
      (vsnprintf failure size format).retval < size := by omega
  obtain ⟨hconverts, hfit⟩ := (vsnprintf_retval_mem hsize).mp hmem
  rw [vsnprintf_retval hconverts (by omega), Int.natCast_inj] at hret
  have htake : (formatted format).1.take (size - 1) = (formatted format).1 :=
    List.take_of_length_le (by rw [length_formatted hconverts]; omega)
  rw [vsnprintf_stored (by omega), htake, ← hret, ← length_formatted hconverts]
  simp

end Buffer

end HmrRpc.Common
