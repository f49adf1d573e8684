import AddonBundle.Text.CodePoint
/-!
# UTF-8

Reading refuses at the first byte that cannot continue a text, and says how much of a character
had been accepted and why it stopped. Writing refuses only halves of surrogate pairs.
-/

namespace AddonBundle

/-- File contents. -/
abbrev Bytes := List UInt8

namespace Utf8

/-- Why bytes are no text. -/
inductive DecodeReason where
  | invalidStart
  | invalidContinuation
  | unexpectedEnd
deriving Repr, DecidableEq

/-- The first bytes that are no text: where they start, how many there are, the first of them,
and the reason. -/
structure DecodeError where
  start : Nat
  length : Nat
  first : UInt8
  reason : DecodeReason
deriving Repr, DecidableEq

/-- The wording of a reason. -/
def DecodeReason.message : DecodeReason → Text
  | .invalidStart => "invalid start byte".toList
  | .invalidContinuation => "invalid continuation byte".toList
  | .unexpectedEnd => "unexpected end of data".toList

/-- The wording of a reading error. -/
def DecodeError.message (e : DecodeError) : Text :=
  let place :=
    if e.length = 1 then
      "byte 0x".toList ++ Text.hex 2 e.first.toNat ++ " in position ".toList ++ Text.ofNat e.start
    else
      "bytes in position ".toList ++ Text.ofNat e.start ++ "-".toList ++
        Text.ofNat (e.start + e.length - 1)
  "'utf-8' codec can't decode ".toList ++ place ++ ": ".toList ++ e.reason.message

/-- Bytes that continue a character. -/
def isContinuation (b : UInt8) : Bool :=
  0x80 ≤ b && b ≤ 0xbf

/-- The bytes that may follow a first byte; some first bytes admit only a part of the
continuation bytes. -/
def isSecond (first b : UInt8) : Bool :=
  isContinuation b &&
    !(first == 0xe0 && b < 0xa0) && !(first == 0xed && 0xa0 ≤ b) &&
    !(first == 0xf0 && b < 0x90) && !(first == 0xf4 && 0x90 ≤ b)

/-- The payload of a continuation byte. -/
def payload (b : UInt8) : Nat :=
  b.toNat % 64

/-- Reads bytes that start at an offset. -/
def decodeFrom : Nat → Bytes → Except DecodeError Text
  | _, [] => .ok []
  | pos, a :: rest =>
    let fail (length : Nat) (reason : DecodeReason) : Except DecodeError Text :=
      .error ⟨pos, length, a, reason⟩
    if a < 0x80 then (Char.ofNat a.toNat :: ·) <$> decodeFrom (pos + 1) rest
    else if a < 0xc2 || 0xf4 < a then fail 1 .invalidStart
    else
      match rest with
      | [] => fail 1 .unexpectedEnd
      | b :: rest =>
        if !isSecond a b then fail 1 .invalidContinuation
        else if a < 0xe0 then
          (Char.ofNat (a.toNat % 32 * 64 + payload b) :: ·) <$> decodeFrom (pos + 2) rest
        else
          match rest with
          | [] => fail 2 .unexpectedEnd
          | c :: rest =>
            if !isContinuation c then fail 2 .invalidContinuation
            else if a < 0xf0 then
              (Char.ofNat (a.toNat % 16 * 4096 + payload b * 64 + payload c) :: ·) <$>
                decodeFrom (pos + 3) rest
            else
              match rest with
              | [] => fail 3 .unexpectedEnd
              | d :: rest =>
                if !isContinuation d then fail 3 .invalidContinuation
                else
                  (Char.ofNat (a.toNat % 8 * 262144 + payload b * 4096 + payload c * 64 +
                    payload d) :: ·) <$> decodeFrom (pos + 4) rest

/-- The text of bytes. -/
def decode (bytes : Bytes) : Except DecodeError Text :=
  decodeFrom 0 bytes

/-- The bytes of a code point, whether or not it is a character. -/
def encodePoint (n : Nat) : Bytes :=
  let tail (k : Nat) : UInt8 := UInt8.ofNat (0x80 + k % 64)
  if n < 0x80 then [UInt8.ofNat n]
  else if n < 0x800 then [UInt8.ofNat (0xc0 + n / 64), tail n]
  else if n < 0x10000 then [UInt8.ofNat (0xe0 + n / 4096), tail (n / 64), tail n]
  else [UInt8.ofNat (0xf0 + n / 262144), tail (n / 4096), tail (n / 64), tail n]

/-- The bytes of a text. -/
def encode (text : Text) : Bytes :=
  text.flatMap fun c => encodePoint c.toNat

/-- The first run of surrogate halves in a text to be written. -/
structure EncodeError where
  start : Nat
  length : Nat
  first : CodePoint
deriving Repr, DecidableEq

/-- The wording of a writing error. -/
def EncodeError.message (e : EncodeError) : Text :=
  let place :=
    if e.length = 1 then
      "character '\\u".toList ++ Text.hex 4 e.first.val ++ "' in position ".toList ++
        Text.ofNat e.start
    else
      "characters in position ".toList ++ Text.ofNat e.start ++ "-".toList ++
        Text.ofNat (e.start + e.length - 1)
  "'utf-8' codec can't encode ".toList ++ place ++ ": surrogates not allowed".toList

/-- Writes code points that start at an offset. -/
def encodeFrom : Nat → CodeText → Except EncodeError Bytes
  | _, [] => .ok []
  | pos, p :: rest =>
    if p.isSurrogate then .error ⟨pos, 1 + (rest.takeWhile CodePoint.isSurrogate).length, p⟩
    else (encodePoint p.val ++ ·) <$> encodeFrom (pos + 1) rest

/-- The bytes of a code text. -/
def encodeCode (text : CodeText) : Except EncodeError Bytes :=
  encodeFrom 0 text

end Utf8

end AddonBundle
