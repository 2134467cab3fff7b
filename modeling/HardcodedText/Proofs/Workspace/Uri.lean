import HardcodedText.Proofs.Text
import HardcodedText.Proofs.Utf8
import HardcodedText.Workspace.Uri

/-!
The URI of a file names no other file. Each byte of the path is written in a way that no other byte
is, so the path can be read back from the URI.
-/

namespace HardcodedText

namespace Uri

def byteOf : Text → UInt8
  | '%' :: digits => UInt8.ofNat (Text.numeral 16 digits)
  | c :: _ => UInt8.ofNat c.toNat
  | [] => 0

theorem quoteByte_shape (byte : UInt8) :
    byteOf (quoteByte byte) = byte ∧
      ((quoteByte byte).head? = some '%' ∧ (quoteByte byte).length = 3 ∨
        (quoteByte byte).head? ≠ some '%' ∧ (quoteByte byte).length = 1) := by
  have each : ∀ code < 256, byteOf (quoteByte (UInt8.ofNat code)) = UInt8.ofNat code ∧
      ((quoteByte (UInt8.ofNat code)).head? = some '%' ∧
          (quoteByte (UInt8.ofNat code)).length = 3 ∨
        (quoteByte (UInt8.ofNat code)).head? ≠ some '%' ∧
          (quoteByte (UInt8.ofNat code)).length = 1) := by
    decide +kernel
  have found := each byte.toNat byte.toNat_lt
  rwa [UInt8.ofNat_toNat] at found

theorem quoteByte_append_inj {first second : UInt8} {left right : Text}
    (same : quoteByte first ++ left = quoteByte second ++ right) :
    first = second ∧ left = right := by
  obtain ⟨firstByte, firstShape⟩ := quoteByte_shape first
  obtain ⟨secondByte, secondShape⟩ := quoteByte_shape second
  have heads : (quoteByte first).head? = (quoteByte second).head? := by
    have whole := congrArg List.head? same
    rw [List.head?_append_of_ne_nil, List.head?_append_of_ne_nil] at whole
    · exact whole
    · rintro empty
      simp [empty] at secondShape
    · rintro empty
      simp [empty] at firstShape
  have lengths : (quoteByte first).length = (quoteByte second).length := by
    rw [heads] at firstShape
    rcases firstShape with ⟨escape, length⟩ | ⟨plain, length⟩ <;>
      rcases secondShape with ⟨escape', length'⟩ | ⟨plain', length'⟩
    · rw [length, length']
    · exact absurd escape plain'
    · exact absurd escape' plain
    · rw [length, length']
  obtain ⟨written, rest⟩ := List.append_inj same lengths
  exact ⟨by rw [← firstByte, written, secondByte], rest⟩

theorem flatMap_quoteByte_injective {left right : List UInt8}
    (same : left.flatMap quoteByte = right.flatMap quoteByte) : left = right := by
  have written (byte : UInt8) (rest : Text) : quoteByte byte ++ rest ≠ [] := by
    rcases (quoteByte_shape byte).2 with ⟨-, length⟩ | ⟨-, length⟩ <;>
      exact List.append_ne_nil_of_left_ne_nil (List.ne_nil_of_length_pos (by omega)) _
  induction left generalizing right with
  | nil =>
      cases right with
      | nil => rfl
      | cons byte right => exact absurd same.symm (written byte _)
  | cons byte left ih =>
      cases right with
      | nil => exact absurd same (written byte _)
      | cons other right =>
          rw [List.flatMap_cons, List.flatMap_cons] at same
          obtain ⟨rfl, rest⟩ := quoteByte_append_inj same
          rw [ih rest]

theorem intercalate_eq_of_ofParts_eq {left right : List Text}
    (same : ofParts left = ofParts right) :
    List.intercalate ['/'] left = List.intercalate ['/'] right := by
  have quoted := flatMap_quoteByte_injective (List.append_cancel_left same)
  have texts := Utf8.encode_injective quoted
  simpa [Path.text, Anchor.text] using texts

/-- Files below one directory have URIs of their own. -/
theorem ofParts_append_injective (base : List Text) {left right : List Text} (leftSome : left ≠ [])
    (rightSome : right ≠ []) (leftClean : ∀ name ∈ left, '/' ∉ name)
    (rightClean : ∀ name ∈ right, '/' ∉ name)
    (same : ofParts (base ++ left) = ofParts (base ++ right)) : left = right := by
  have joined := intercalate_eq_of_ofParts_eq same
  have below : List.intercalate ['/'] left = List.intercalate ['/'] right := by
    by_cases top : base = []
    · simpa [top] using joined
    · rw [Text.intercalate_append top leftSome, Text.intercalate_append top rightSome] at joined
      exact List.append_cancel_left joined
  rw [← List.splitOn_intercalate '/' leftClean leftSome, below,
    List.splitOn_intercalate '/' rightClean rightSome]

end Uri

end HardcodedText
