import HardcodedText.Text.Utf8
import Mathlib.Data.List.Basic
import Mathlib.Tactic.Common

/-!
Strict decoding reads exactly the encoded texts. A character is spelled with one to four bytes, and
the bytes of a text are read either as such a spelling in front of the rest or as a bad piece.
-/

namespace HardcodedText.Utf8

theorem toListLoop_eq (bytes : ByteArray) (index : Nat) (read : List UInt8) :
    ByteArray.toList.loop bytes index read = read.reverse ++ bytes.data.toList.drop index := by
  fun_induction ByteArray.toList.loop bytes index read with
  | case1 index read room ih =>
      have bound : index < bytes.data.toList.length := room
      rw [ih, List.drop_eq_getElem_cons bound, List.reverse_cons, List.append_assoc]
      have here : bytes.get! index = bytes.data.toList[index] := by
        simp [ByteArray.get!, getElem!_pos bytes.data index room]
      rw [here]
      rfl
  | case2 index read done =>
      have beyond : bytes.data.toList.length ≤ index := Nat.le_of_not_lt done
      rw [List.drop_of_length_le beyond, List.append_nil]

theorem encode_eq_flatMap (text : Text) : encode text = text.flatMap String.utf8EncodeChar := by
  have bytes : text.string.toUTF8 = (text.flatMap String.utf8EncodeChar).toByteArray :=
    String.toByteArray_ofList
  rw [encode, bytes, ByteArray.toList, toListLoop_eq]
  simp

/-- The bytes of a character, from one to four. The bounds on the second byte leave out overlong
forms, surrogates and codes past U+10FFFF. -/
inductive Spells : Char → List UInt8 → Prop
  | one {byte : UInt8} (ascii : byte.toNat < 0x80) : Spells (Char.ofNat byte.toNat) [byte]
  | two {first next : UInt8} (lead : 0xc2 ≤ first.toNat ∧ first.toNat < 0xe0)
      (second : 0x80 ≤ next.toNat ∧ next.toNat ≤ 0xbf) :
      Spells (Char.ofNat ((first.toNat - 0xc0) * 64 + (next.toNat - 0x80))) [first, next]
  | three {first next last : UInt8} (lead : 0xe0 ≤ first.toNat ∧ first.toNat < 0xf0)
      (second : 0x80 ≤ next.toNat ∧ next.toNat ≤ 0xbf)
      (low : first.toNat = 0xe0 → 0xa0 ≤ next.toNat) (high : first.toNat = 0xed → next.toNat ≤ 0x9f)
      (third : 0x80 ≤ last.toNat ∧ last.toNat ≤ 0xbf) :
      Spells (Char.ofNat (((first.toNat - 0xe0) * 64 + (next.toNat - 0x80)) * 64 +
        (last.toNat - 0x80))) [first, next, last]
  | four {first next later last : UInt8} (lead : 0xf0 ≤ first.toNat ∧ first.toNat < 0xf5)
      (second : 0x80 ≤ next.toNat ∧ next.toNat ≤ 0xbf)
      (low : first.toNat = 0xf0 → 0x90 ≤ next.toNat) (high : first.toNat = 0xf4 → next.toNat ≤ 0x8f)
      (third : 0x80 ≤ later.toNat ∧ later.toNat ≤ 0xbf)
      (fourth : 0x80 ≤ last.toNat ∧ last.toNat ≤ 0xbf) :
      Spells (Char.ofNat ((((first.toNat - 0xf0) * 64 + (next.toNat - 0x80)) * 64 +
        (later.toNat - 0x80)) * 64 + (last.toNat - 0x80))) [first, next, later, last]

theorem byte_eq {code : Nat} {byte : UInt8} (same : code = byte.toNat) :
    UInt8.ofNat code = byte := by
  rw [same, UInt8.ofNat_toNat]

theorem val_ofNat {code : Nat} (valid : code.isValidChar) : (Char.ofNat code).val.toNat = code := by
  rw [Char.ofNat, dif_pos valid]
  rfl

theorem Spells.encodeChar_eq {c : Char} {bytes : List UInt8} (spells : Spells c bytes) :
    String.utf8EncodeChar c = bytes := by
  unfold String.utf8EncodeChar
  cases spells with
  | @one byte ascii =>
      rw [val_ofNat (by unfold Nat.isValidChar; omega), if_pos (by omega), byte_eq rfl]
  | @two first next lead second =>
      rw [val_ofNat (by unfold Nat.isValidChar; omega), if_neg (by omega), if_pos (by omega),
        @byte_eq _ first (by omega), @byte_eq _ next (by omega)]
  | @three first next last lead second low high third =>
      rw [val_ofNat (by unfold Nat.isValidChar; omega), if_neg (by omega), if_neg (by omega),
        if_pos (by omega), @byte_eq _ first (by omega), @byte_eq _ next (by omega),
        @byte_eq _ last (by omega)]
  | @four first next later last lead second low high third fourth =>
      rw [val_ofNat (by unfold Nat.isValidChar; omega), if_neg (by omega), if_neg (by omega),
        if_neg (by omega), @byte_eq _ first (by omega), @byte_eq _ next (by omega),
        @byte_eq _ later (by omega), @byte_eq _ last (by omega)]

theorem exists_byte {code : Nat} (small : code < 256) : ∃ byte : UInt8, byte.toNat = code :=
  ⟨UInt8.ofNat code, UInt8.toNat_ofNat_of_lt' small⟩

/-- Every character is spelled by its encoding. -/
theorem spells_encodeChar (c : Char) : Spells c (String.utf8EncodeChar c) := by
  have valid : c.toNat < 0xd800 ∨ 0xdfff < c.toNat ∧ c.toNat < 0x110000 := c.valid
  have spelled {code : Nat} {bytes : List UInt8} (spells : Spells (Char.ofNat code) bytes)
      (same : code = c.toNat) : Spells c (String.utf8EncodeChar c) := by
    rw [same, Char.ofNat_toNat] at spells
    rwa [spells.encodeChar_eq]
  by_cases ascii : c.toNat < 0x80
  · obtain ⟨byte, same⟩ := @exists_byte c.toNat (by omega)
    exact spelled (@Spells.one byte (by omega)) same
  obtain ⟨last, ends⟩ := @exists_byte (c.toNat % 64 + 0x80) (by omega)
  by_cases short : c.toNat < 0x800
  · obtain ⟨first, begins⟩ := @exists_byte (c.toNat / 64 + 0xc0) (by omega)
    exact spelled (@Spells.two first last (by omega) (by omega)) (by omega)
  obtain ⟨later, goesOn⟩ := @exists_byte (c.toNat / 64 % 64 + 0x80) (by omega)
  by_cases basic : c.toNat < 0x10000
  · obtain ⟨first, begins⟩ := @exists_byte (c.toNat / 4096 + 0xe0) (by omega)
    exact spelled (@Spells.three first later last (by omega) (by omega) (by omega) (by omega)
      (by omega)) (by omega)
  · obtain ⟨first, begins⟩ := @exists_byte (c.toNat / 262144 + 0xf0) (by omega)
    obtain ⟨next, second⟩ := @exists_byte (c.toNat / 4096 % 64 + 0x80) (by omega)
    exact spelled (@Spells.four first next later last (by omega) (by omega) (by omega) (by omega)
      (by omega) (by omega)) (by omega)

/-! Reading. -/

section Reading

variable {index : Nat} {first next : UInt8} {rest : List UInt8}

theorem piecesFrom_cons (index : Nat) (first : UInt8) (rest : List UInt8) :
    piecesFrom index none (first :: rest) = (openChar index first.toNat).1 ++
      piecesFrom (index + 1) (openChar index first.toNat).2 rest :=
  rfl

theorem openChar_two (lead : 0xc2 ≤ first.toNat ∧ first.toNat < 0xe0) :
    openChar index first.toNat =
      ([], some ⟨first.toNat, index, 1, 0x80, 0xbf, first.toNat - 0xc0⟩) := by
  rw [openChar, if_neg (by omega), if_neg (by omega), if_pos lead.2]

theorem openChar_three (lead : 0xe0 ≤ first.toNat ∧ first.toNat < 0xf0) :
    openChar index first.toNat = ([], some ⟨first.toNat, index, 2,
      if first.toNat = 0xe0 then 0xa0 else 0x80, if first.toNat = 0xed then 0x9f else 0xbf,
      first.toNat - 0xe0⟩) := by
  rw [openChar, if_neg (by omega), if_neg (by omega), if_neg (by omega), if_pos lead.2]

theorem openChar_four (lead : 0xf0 ≤ first.toNat ∧ first.toNat < 0xf5) :
    openChar index first.toNat = ([], some ⟨first.toNat, index, 3,
      if first.toNat = 0xf0 then 0x90 else 0x80, if first.toNat = 0xf4 then 0x8f else 0xbf,
      first.toNat - 0xf0⟩) := by
  rw [openChar, if_neg (by omega), if_neg (by omega), if_neg (by omega), if_neg (by omega),
    if_pos lead.2]

theorem openChar_bad (never : 0x80 ≤ first.toNat ∧ first.toNat < 0xc2 ∨ 0xf5 ≤ first.toNat) :
    ∃ error, openChar index first.toNat = ([.bad error], none) := by
  rw [openChar, if_neg (by omega)]
  rcases never with continues | beyond
  · rw [if_pos continues.2]
    exact ⟨_, rfl⟩
  · rw [if_neg (by omega), if_neg (by omega), if_neg (by omega), if_neg (by omega)]
    exact ⟨_, rfl⟩

def Begun.grown (begun : Begun) (byte : Nat) : Begun :=
  { begun with
    owed := begun.owed - 1
    low := 0x80
    high := 0xbf
    code := begun.code * 64 + (byte - 0x80) }

variable {begun : Begun}

theorem piecesFrom_grown (more : 1 < begun.owed)
    (fits : begun.low ≤ next.toNat ∧ next.toNat ≤ begun.high) :
    piecesFrom index (some begun) (next :: rest) =
      piecesFrom (index + 1) (some (begun.grown next.toNat)) rest := by
  simp [piecesFrom, readByte, fits, Nat.not_le.mpr more, Begun.grown]

theorem piecesFrom_last (last : begun.owed = 1)
    (fits : begun.low ≤ next.toNat ∧ next.toNat ≤ begun.high) :
    piecesFrom index (some begun) (next :: rest) =
      .char (Char.ofNat (begun.code * 64 + (next.toNat - 0x80))) ::
        piecesFrom (index + 1) none rest := by
  simp [piecesFrom, readByte, fits, last]

theorem fits_or_bad (index : Nat) (begun : Begun) (bytes : List UInt8) :
    (∃ next rest, bytes = next :: rest ∧ begun.low ≤ next.toNat ∧ next.toNat ≤ begun.high) ∨
      ∃ error later, piecesFrom index (some begun) bytes = .bad error :: later := by
  cases bytes with
  | nil => exact Or.inr ⟨_, _, rfl⟩
  | cons next rest =>
      by_cases fits : begun.low ≤ next.toNat ∧ next.toNat ≤ begun.high
      · exact Or.inl ⟨next, rest, rfl, fits⟩
      · refine Or.inr ⟨⟨begun.first, begun.start, index, .invalidContinuation⟩, ?_⟩
        have misfit : (begun.low ≤ next.toNat && next.toNat ≤ begun.high) = false := by
          simpa using fits
        rw [piecesFrom, readByte, misfit]
        exact ⟨_, rfl⟩

end Reading

theorem Spells.pieces_eq {c : Char} {bytes : List UInt8} (spells : Spells c bytes) (index : Nat)
    (rest : List UInt8) :
    piecesFrom index none (bytes ++ rest) =
      .char c :: piecesFrom (index + bytes.length) none rest := by
  cases spells with
  | one ascii =>
      rw [List.cons_append, piecesFrom_cons, openChar, if_pos ascii]
      rfl
  | two lead second =>
      rw [List.cons_append, piecesFrom_cons, openChar_two lead]
      exact piecesFrom_last rfl second
  | three lead second low high third =>
      rw [List.cons_append, piecesFrom_cons, openChar_three lead, List.nil_append,
        List.cons_append, piecesFrom_grown (by simp) (by simp only; split <;> split <;> omega)]
      exact piecesFrom_last rfl third
  | four lead second low high third fourth =>
      rw [List.cons_append, piecesFrom_cons, openChar_four lead, List.nil_append,
        List.cons_append, piecesFrom_grown (by simp) (by simp only; split <;> split <;> omega),
        List.cons_append, piecesFrom_grown (by simp [Begun.grown]) third]
      exact piecesFrom_last rfl fourth

/-- The front of a byte sequence is the spelling of a character or a bad piece. -/
theorem spelled_or_bad (index : Nat) (first : UInt8) (rest : List UInt8) :
    (∃ c bytes more, Spells c bytes ∧ first :: rest = bytes ++ more) ∨
      ∃ error later, piecesFrom index none (first :: rest) = .bad error :: later := by
  rw [piecesFrom_cons]
  by_cases ascii : first.toNat < 0x80
  · exact Or.inl ⟨_, [first], rest, Spells.one ascii, rfl⟩
  by_cases never : first.toNat < 0xc2 ∨ 0xf5 ≤ first.toNat
  · obtain ⟨error, bad⟩ := @openChar_bad index first (by omega)
    rw [bad]
    exact Or.inr ⟨error, _, rfl⟩
  by_cases two : first.toNat < 0xe0
  · have lead : 0xc2 ≤ first.toNat ∧ first.toNat < 0xe0 := by omega
    rw [openChar_two lead, List.nil_append]
    rcases fits_or_bad (index + 1) ⟨first.toNat, index, 1, 0x80, 0xbf, first.toNat - 0xc0⟩ rest with
      ⟨next, rest, rfl, second⟩ | bad
    · exact Or.inl ⟨_, [first, next], rest, Spells.two lead second, rfl⟩
    · exact Or.inr bad
  by_cases three : first.toNat < 0xf0
  · have lead : 0xe0 ≤ first.toNat ∧ first.toNat < 0xf0 := by omega
    rw [openChar_three lead, List.nil_append]
    generalize opened : Begun.mk first.toNat index 2 _ _ _ = begun
    rcases fits_or_bad (index + 1) begun rest with ⟨next, rest, rfl, second⟩ | bad
    · rw [piecesFrom_grown (by simp [← opened]) second]
      rcases fits_or_bad (index + 2) (begun.grown next.toNat) rest with
        ⟨last, rest, rfl, third⟩ | bad
      · subst opened
        simp only at second
        refine Or.inl ⟨_, [first, next, last], rest, Spells.three lead ?_ ?_ ?_ third, rfl⟩ <;>
          split at second <;> split at second <;> omega
      · exact Or.inr bad
    · exact Or.inr bad
  · have lead : 0xf0 ≤ first.toNat ∧ first.toNat < 0xf5 := by omega
    rw [openChar_four lead, List.nil_append]
    generalize opened : Begun.mk first.toNat index 3 _ _ _ = begun
    rcases fits_or_bad (index + 1) begun rest with ⟨next, rest, rfl, second⟩ | bad
    · rw [piecesFrom_grown (by simp [← opened]) second]
      rcases fits_or_bad (index + 2) (begun.grown next.toNat) rest with
        ⟨later, rest, rfl, third⟩ | bad
      · rw [piecesFrom_grown (by simp [← opened, Begun.grown]) third]
        rcases fits_or_bad (index + 3) ((begun.grown next.toNat).grown later.toNat) rest with
          ⟨last, rest, rfl, fourth⟩ | bad
        · subst opened
          simp only at second
          refine Or.inl ⟨_, [first, next, later, last], rest,
            Spells.four lead ?_ ?_ ?_ third fourth, rfl⟩ <;>
            split at second <;> split at second <;> omega
        · exact Or.inr bad
      · exact Or.inr bad
    · exact Or.inr bad

theorem decode_encode (text : Text) : decode (encode text) = .ok text := by
  have pieces (index : Nat) : collect (piecesFrom index none (encode text)) = .ok text := by
    rw [encode_eq_flatMap]
    induction text generalizing index with
    | nil => rfl
    | cons c rest ih =>
        rw [List.flatMap_cons, (spells_encodeChar c).pieces_eq, collect, ih]
        rfl
  exact pieces 0

theorem encode_injective {left right : Text} (same : encode left = encode right) :
    left = right := by
  have decoded := decode_encode left
  rw [same, decode_encode] at decoded
  exact (Except.ok.inj decoded).symm

/-- Only the encoding of a text decodes to it. -/
theorem encode_of_collect (bytes : List UInt8) : ∀ (index : Nat) (text : Text),
    collect (piecesFrom index none bytes) = .ok text → bytes = encode text := by
  induction length : bytes.length using Nat.strongRecOn generalizing bytes with
  | ind size ih =>
      intro index text decoded
      cases bytes with
      | nil =>
          obtain rfl := Except.ok.inj decoded
          rw [encode_eq_flatMap]
          rfl
      | cons first rest =>
          rcases spelled_or_bad index first rest with
            ⟨c, bytes, more, spells, same⟩ | ⟨error, later, bad⟩
          · rw [same, spells.pieces_eq, collect] at decoded
            have positive : 0 < bytes.length := by
              rw [← spells.encodeChar_eq]
              exact List.length_pos_iff.mpr String.utf8EncodeChar_ne_nil
            have shorter : more.length < size := by
              have total := congrArg List.length same
              rw [List.length_append] at total
              omega
            cases rest : collect (piecesFrom (index + bytes.length) none more) with
            | error error => simp [rest, Except.map] at decoded
            | ok tail =>
                rw [rest] at decoded
                obtain rfl := Except.ok.inj decoded
                have follows := ih more.length shorter more rfl _ tail rest
                rw [same, follows, encode_eq_flatMap, encode_eq_flatMap, List.flatMap_cons,
                  spells.encodeChar_eq]
          · simp [bad, collect] at decoded

theorem decode_eq_ok_iff {bytes : List UInt8} {text : Text} :
    decode bytes = .ok text ↔ bytes = encode text := by
  constructor
  · exact encode_of_collect bytes 0 text
  · rintro rfl
    exact decode_encode text

end HardcodedText.Utf8
