import Mathlib.Data.List.Forall2
import Lockstep.Json.Reader
import Lockstep.Json.Writer

/-!
# JSON strings are read back

Every text, whatever characters it has, is read back from the JSON string that is written of
it (`Json.read_write_text`).

A character is written as itself, with a short escape, or by its code in four digits, and
what is written is scanned as one piece, which stands for the character (`Stands`).  Only
controls are written by their code, and so no unit that is scanned is half of a pair: the
pieces are joined one by one.
-/

namespace Lockstep.Json

open Lockstep.Text

variable {pieces : List Piece} {cs rest : List Char}

/-- A piece is what the written form of a character is scanned as: the character, or the
code of a control. -/
inductive Stands : Piece → Char → Prop
  | char (c : Char) : Stands (.char c) c
  | unit {c : Char} (h : c.toNat < 0x20) : Stands (.unit c.toNat) c

/-! ## Characters -/

/-- The code of a control has four digits, of which the first two are zeros. -/
theorem digits_of_control {n : Nat} (h : n < 0x20) :
    ∃ a b c d, padZeros 4 (hexadecimal n) = [a, b, c, d] ∧
      [a, b, c, d].all (isDigitIn 16) = true ∧ valueIn 16 [a, b, c, d] = n := by
  have hall : ∀ n < 0x20, padZeros 4 (hexadecimal n) =
      ['0', '0', Nat.digitChar (n / 16), Nat.digitChar (n % 16)] ∧
      ['0', '0', Nat.digitChar (n / 16), Nat.digitChar (n % 16)].all (isDigitIn 16) = true ∧
      valueIn 16 ['0', '0', Nat.digitChar (n / 16), Nat.digitChar (n % 16)] = n := by
    decide
  exact ⟨_, _, _, _, hall n h⟩

theorem scanPieces_unit {a b c d : Char} (h : [a, b, c, d].all (isDigitIn 16) = true) :
    scanPieces pieces ('\\' :: 'u' :: a :: b :: c :: d :: rest) =
      scanPieces (.unit (valueIn 16 [a, b, c, d]) :: pieces) rest := by
  rw [scanPieces, if_pos h]

theorem scanPieces_escaped {c e : Char} (h : escaped? c = some e) :
    scanPieces pieces ('\\' :: c :: rest) = scanPieces (.char e :: pieces) rest := by
  have hcode : c ≠ 'u' := by
    rintro rfl
    cases h
  rw [scanPieces, h]
  intro a b c' d rest' heq
  exact absurd heq hcode

/-- A character that is no quote, no backslash and no control is scanned as itself. -/
theorem scanPieces_plain {c : Char} (hquote : c ≠ '"') (hslash : c ≠ '\\')
    (hcontrol : ¬ c.toNat < 0x20) :
    scanPieces pieces (c :: rest) = scanPieces (.char c :: pieces) rest := by
  rw [scanPieces, if_neg]
  · rintro (hlt | heq)
    · exact hcontrol hlt
    · exact hslash heq
  · exact hquote
  · intro _ _ _ _ _ heq
    exact absurd heq hslash
  · intro _ _ heq
    exact absurd heq hslash

/-- What is written of a character is scanned as a piece that stands for it. -/
theorem exists_scanPieces_writeChar (c : Char) (pieces : List Piece) (rest : List Char) :
    ∃ piece, Stands piece c ∧
      scanPieces pieces (writeChar c ++ rest) = scanPieces (piece :: pieces) rest := by
  have hshort : ∀ letter e : Char, escaped? letter = some e → ∃ piece, Stands piece e ∧
      scanPieces pieces (['\\', letter] ++ rest) = scanPieces (piece :: pieces) rest :=
    fun letter e he => ⟨_, .char e, scanPieces_escaped he⟩
  unfold writeChar
  split_ifs with hquote hslash h h h h h hcontrol
  · exact hquote ▸ hshort '"' '"' rfl
  · exact hslash ▸ hshort '\\' '\\' rfl
  · exact h ▸ hshort 'b' '\x08' rfl
  · exact h ▸ hshort 't' '\t' rfl
  · exact h ▸ hshort 'n' '\n' rfl
  · exact h ▸ hshort 'f' '\x0c' rfl
  · exact h ▸ hshort 'r' '\r' rfl
  · obtain ⟨a, b, x, y, hdigits, hall, hvalue⟩ := digits_of_control hcontrol
    refine ⟨_, .unit hcontrol, ?_⟩
    rw [hdigits, ← hvalue]
    exact scanPieces_unit hall
  · exact ⟨_, .char c, scanPieces_plain hquote hslash hcontrol⟩

/-! ## Texts -/

/-- What is written of a text is scanned as pieces that stand for its characters, up to the
quote behind it. -/
theorem exists_scanPieces_flatMap (cs : List Char) (pieces : List Piece) (rest : List Char) :
    ∃ written, List.Forall₂ Stands written cs ∧
      scanPieces pieces (cs.flatMap writeChar ++ '"' :: rest) =
        some (written.reverse ++ pieces, rest) := by
  induction cs generalizing pieces with
  | nil => exact ⟨[], .nil, rfl⟩
  | cons c cs ih =>
      obtain ⟨piece, hstands, hscan⟩ :=
        exists_scanPieces_writeChar c pieces (cs.flatMap writeChar ++ '"' :: rest)
      obtain ⟨written, hwritten, hrest⟩ := ih (piece :: pieces)
      refine ⟨piece :: written, .cons hstands hwritten, ?_⟩
      calc scanPieces pieces ((c :: cs).flatMap writeChar ++ '"' :: rest)
          = scanPieces pieces (writeChar c ++ (cs.flatMap writeChar ++ '"' :: rest)) := by
            rw [List.flatMap_cons, List.append_assoc]
        _ = scanPieces (piece :: pieces) (cs.flatMap writeChar ++ '"' :: rest) := hscan
        _ = some (written.reverse ++ piece :: pieces, rest) := hrest
        _ = some ((piece :: written).reverse ++ pieces, rest) := by simp

/-- The code of a control is joined with nothing. -/
theorem joinPieces_unit {n : Nat} (h : n < 0x20) (pieces : List Piece) :
    joinPieces (.unit n :: pieces) = (joinPieces pieces).map (Char.ofNat n :: ·) := by
  have hhigh : isHigh n = false := by
    simp only [isHigh, Bool.and_eq_false_iff, decide_eq_false_iff_not]
    omega
  have hlow : isLow n = false := by
    simp only [isLow, Bool.and_eq_false_iff, decide_eq_false_iff_not]
    omega
  cases pieces with
  | nil => simp [joinPieces, hhigh, hlow]
  | cons piece pieces =>
      cases piece with
      | char c => simp [joinPieces, hhigh, hlow]
      | unit low => simp [joinPieces, hhigh, hlow]

theorem joinPieces_of_stands (h : List.Forall₂ Stands pieces cs) : joinPieces pieces = some cs := by
  induction h with
  | nil => rfl
  | @cons piece c pieces cs hstands hrest ih =>
      cases hstands with
      | char c => rw [joinPieces, ih, Option.map_some]
      | unit hcontrol => rw [joinPieces_unit hcontrol, ih, Option.map_some, Char.ofNat_toNat]

/-- A text that is one token. -/
theorem tokens?_of_scanToken {c : Char} {token : Token} (hspace : isSpace c = false)
    (h : scanToken (c :: cs) = some (token, [])) : tokens? (c :: cs) = some [token] := by
  have hdrop : (c :: cs).dropWhile isSpace = c :: cs := by
    rw [List.dropWhile_cons_of_neg (by rw [hspace]; exact Bool.false_ne_true)]
  show scanTokens (cs.length + 1 + 1) (c :: cs) = _
  simp only [scanTokens, hdrop, h]
  rfl

/-- A text is read back from the string that is written of it. -/
theorem read_write_text (s : String) : read (write (.text s)) = some (.text s) := by
  obtain ⟨written, hwritten, hscan⟩ := exists_scanPieces_flatMap s.toList [] []
  have htoken : scanToken ('"' :: (s.toList.flatMap writeChar ++ ['"'])) =
      some (.string (some s), []) := by
    rw [scanToken, hscan, Option.map_some]
    show some (Token.string ((joinPieces (written.reverse ++ []).reverse).map String.ofList), _) = _
    rw [List.append_nil, List.reverse_reverse, joinPieces_of_stands hwritten, Option.map_some,
      String.ofList_toList]
  have htokens : tokens? (write (.text s)).toList = some [.string (some s)] := by
    have hwrite : (write (.text s)).toList = '"' :: (s.toList.flatMap writeChar ++ ['"']) := by
      simp [write, writeAtom, writeString]
    rw [hwrite]
    exact tokens?_of_scanToken rfl htoken
  rw [read, htokens]
  rfl

end Lockstep.Json
