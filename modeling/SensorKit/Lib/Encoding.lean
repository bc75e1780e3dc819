import Mathlib.Data.List.Basic

/-!
# Bytes and texts

UTF-8 encodes every text; Latin-1 decodes every byte string, a character for each byte. On a text of ASCII characters, and on
no other, the second undoes the first.
-/

namespace SensorKit.Lib

/-- The bytes of a text. -/
def encodeUtf8 (text : String) : List UInt8 := text.toList.flatMap String.utf8EncodeChar

def latin1 (byte : UInt8) : Char := Char.ofNat byte.toNat

/-- Each byte as a character. -/
def decodeLatin1 (bytes : List UInt8) : String := String.ofList (bytes.map latin1)

/-- A text of ASCII characters. -/
def Ascii (text : String) : Prop := ∀ c ∈ text.toList, c.toNat < 128

instance (text : String) : Decidable (Ascii text) := List.decidableBAll _ _

variable {byte : UInt8} {bytes bytes' : List UInt8} {text text' : String} {c : Char}

theorem toNat_latin1 : (latin1 byte).toNat = byte.toNat := by
  have bound : byte.toNat < 256 := byte.toNat_lt
  have valid : byte.toNat.isValidChar := .inl (by omega)
  unfold latin1 Char.ofNat
  rw [dif_pos valid]
  rfl

theorem latin1_injective {other : UInt8} (same : latin1 byte = latin1 other) : byte = other := by
  apply UInt8.toNat_inj.1
  rw [← toNat_latin1, same, toNat_latin1]

@[simp] theorem toList_decodeLatin1 : (decodeLatin1 bytes).toList = bytes.map latin1 := String.toList_ofList

theorem decodeLatin1_injective (same : decodeLatin1 bytes = decodeLatin1 bytes') : bytes = bytes' := by
  have chars := congrArg String.toList same
  rw [toList_decodeLatin1, toList_decodeLatin1] at chars
  exact List.map_injective_iff.2 (fun _ _ => latin1_injective) chars

@[simp] theorem ascii_decodeLatin1 : Ascii (decodeLatin1 bytes) ↔ ∀ byte ∈ bytes, byte.toNat < 128 := by
  unfold Ascii
  rw [toList_decodeLatin1]
  simp [toNat_latin1]

theorem encode_ascii (ascii : c.toNat < 128) : (String.utf8EncodeChar c).map latin1 = [c] := by
  have short : c.val.toNat ≤ 0x7f := Nat.le_of_lt_succ ascii
  have singleton : String.utf8EncodeChar c = [UInt8.ofNat c.val.toNat] := if_pos short
  have small : (UInt8.ofNat c.val.toNat).toNat = c.toNat := by
    rw [UInt8.toNat_ofNat']
    exact Nat.mod_eq_of_lt (Nat.lt_trans ascii (by omega))
  have char : latin1 (UInt8.ofNat c.val.toNat) = c := by
    unfold latin1
    rw [small, Char.ofNat_toNat]
  rw [singleton, List.map_singleton, char]

/-- Decoding undoes encoding on ASCII texts. -/
theorem decodeLatin1_encodeUtf8 (ascii : Ascii text) : decodeLatin1 (encodeUtf8 text) = text := by
  have each (chars : List Char) (ascii : ∀ c ∈ chars, c.toNat < 128) :
      (chars.flatMap String.utf8EncodeChar).map latin1 = chars := by
    induction chars with
    | nil => rfl
    | cons c chars ih =>
      have rest := ih fun c mem => ascii c (List.mem_cons_of_mem _ mem)
      rw [List.flatMap_cons, List.map_append, encode_ascii (ascii c List.mem_cons_self), rest]
      rfl
  unfold decodeLatin1 encodeUtf8
  rw [each text.toList ascii, String.ofList_toList]

end SensorKit.Lib
