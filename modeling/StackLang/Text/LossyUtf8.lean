/-!
# Reading bytes as text

Bytes that are not UTF-8 are read as the replacement character: one for each
longest piece that could have begun a character.  The ranges allowed for the
second byte exclude overlong forms, surrogates and code points past the last.
-/

namespace StackLang.Text

/-- Stands for what could not be read. -/
def replacement : Char := '\uFFFD'

/-- A byte that continues a character. -/
def isContinuation (b : UInt8) : Bool :=
  0x80 ≤ b && b ≤ 0xBF

/-- Second bytes that may follow the first byte of a three-byte character. -/
def fitsThreeByte (first second : UInt8) : Bool :=
  if first == 0xE0 then 0xA0 ≤ second && second ≤ 0xBF
  else if first == 0xED then 0x80 ≤ second && second ≤ 0x9F
  else isContinuation second

/-- Second bytes that may follow the first byte of a four-byte character. -/
def fitsFourByte (first second : UInt8) : Bool :=
  if first == 0xF0 then 0x90 ≤ second && second ≤ 0xBF
  else if first == 0xF4 then 0x80 ≤ second && second ≤ 0x8F
  else isContinuation second

/-- The six payload bits of a continuation byte. -/
def payload (b : UInt8) : Nat := b.toNat % 64

/-- The characters of a byte sequence, with replacements for what is not UTF-8. -/
def decodeLossy : List UInt8 → List Char
  | [] => []
  | b₀ :: rest₀ =>
    if b₀ < 0x80 then Char.ofNat b₀.toNat :: decodeLossy rest₀
    else if 0xC2 ≤ b₀ && b₀ ≤ 0xDF then
      match rest₀ with
      | [] => [replacement]
      | b₁ :: rest₁ =>
        if isContinuation b₁ then
          Char.ofNat (b₀.toNat % 32 * 64 + payload b₁) :: decodeLossy rest₁
        else replacement :: decodeLossy (b₁ :: rest₁)
    else if 0xE0 ≤ b₀ && b₀ ≤ 0xEF then
      match rest₀ with
      | [] => [replacement]
      | b₁ :: rest₁ =>
        if fitsThreeByte b₀ b₁ then
          match rest₁ with
          | [] => [replacement]
          | b₂ :: rest₂ =>
            if isContinuation b₂ then
              Char.ofNat ((b₀.toNat % 16 * 64 + payload b₁) * 64 + payload b₂) ::
                decodeLossy rest₂
            else replacement :: decodeLossy (b₂ :: rest₂)
        else replacement :: decodeLossy (b₁ :: rest₁)
    else if 0xF0 ≤ b₀ && b₀ ≤ 0xF4 then
      match rest₀ with
      | [] => [replacement]
      | b₁ :: rest₁ =>
        if fitsFourByte b₀ b₁ then
          match rest₁ with
          | [] => [replacement]
          | b₂ :: rest₂ =>
            if isContinuation b₂ then
              match rest₂ with
              | [] => [replacement]
              | b₃ :: rest₃ =>
                if isContinuation b₃ then
                  Char.ofNat (((b₀.toNat % 8 * 64 + payload b₁) * 64 + payload b₂) * 64
                    + payload b₃) :: decodeLossy rest₃
                else replacement :: decodeLossy (b₃ :: rest₃)
            else replacement :: decodeLossy (b₂ :: rest₂)
        else replacement :: decodeLossy (b₁ :: rest₁)
    else replacement :: decodeLossy rest₀

/-- A byte sequence as text. -/
def ofBytes (bytes : List UInt8) : String :=
  String.ofList (decodeLossy bytes)

end StackLang.Text
