/-
Reading bytes as UTF-8 text.

`decode` accepts exactly the well-formed sequences of one to four bytes and otherwise reports the
first place where the text breaks off: which bytes are at fault and why.  A byte that can start no
sequence is at fault alone; a sequence cut short by a byte that cannot continue it is at fault up to
that byte; a sequence cut short by the end of the input is at fault up to the end.

`translateNewlines` is the reading of line ends: a carriage return, alone or before a line feed, is
a line feed.
-/
import StyleImport.Text.Basic

namespace StyleImport

namespace Utf8

/-- Why a byte sequence is not UTF-8. -/
inductive Reason where
  /-- The byte starts no sequence. -/
  | invalidStart
  /-- A byte that was to continue a sequence does not. -/
  | invalidContinuation
  /-- The input ends inside a sequence. -/
  | unexpectedEnd
  deriving DecidableEq, Repr

/-- The first fault of a byte sequence: the bytes from `start` up to, not including, `stop`. -/
structure Fault where
  /-- The first byte of the broken sequence. -/
  byte : UInt8
  /-- Where the broken sequence starts. -/
  start : Nat
  /-- Where the bytes at fault stop. -/
  stop : Nat
  /-- Why they are at fault. -/
  reason : Reason
  deriving DecidableEq, Repr

/-- The wording of a reason. -/
def Reason.message : Reason → Text
  | .invalidStart => "invalid start byte"
  | .invalidContinuation => "invalid continuation byte"
  | .unexpectedEnd => "unexpected end of data"

/-- The wording of a fault: one byte is named by its value, several by their positions. -/
def Fault.message (f : Fault) : Text :=
  if f.stop = f.start + 1 then
    "'utf-8' codec can't decode byte 0x" ++ Text.hex 2 f.byte.toNat ++ " in position "
      ++ Text.ofNat f.start ++ ": " ++ f.reason.message
  else
    "'utf-8' codec can't decode bytes in position " ++ Text.ofNat f.start ++ "-"
      ++ Text.ofNat (f.stop - 1) ++ ": " ++ f.reason.message

/-- Whether a byte continues a sequence. -/
def isTail (b : UInt8) : Bool := 0x80 ≤ b && b ≤ 0xBF

/-- Whether `b` may stand second after the first byte `a` of a longer sequence: the shortest form
only, no surrogate, nothing above the last code point. -/
def isSecond (a b : UInt8) : Bool :=
  isTail b && (a != 0xE0 || 0xA0 ≤ b) && (a != 0xED || b < 0xA0)
    && (a != 0xF0 || 0x90 ≤ b) && (a != 0xF4 || b < 0x90)

/-- The number of bytes in the sequence that `a` starts; zero if it starts none. -/
def sequenceLength (a : UInt8) : Nat :=
  if a < 0x80 then 1
  else if a < 0xC2 then 0
  else if a < 0xE0 then 2
  else if a < 0xF0 then 3
  else if a < 0xF5 then 4
  else 0

/-- The payload of a continuation byte. -/
def tailBits (b : UInt8) : Nat := b.toNat % 0x40

/-- The text of the bytes that follow position `pos`. -/
def decodeFrom (pos : Nat) : List UInt8 → Except Fault Text
  | [] => .ok []
  | a :: rest =>
    let broken (width : Nat) (reason : Reason) : Except Fault Text :=
      .error ⟨a, pos, pos + width, reason⟩
    match sequenceLength a with
    | 1 => (decodeFrom (pos + 1) rest).map (Char.ofNat a.toNat :: ·)
    | 2 =>
      match rest with
      | b :: rest =>
        if isSecond a b then
          (decodeFrom (pos + 2) rest).map (Char.ofNat (a.toNat % 0x20 * 0x40 + tailBits b) :: ·)
        else broken 1 .invalidContinuation
      | [] => broken 1 .unexpectedEnd
    | 3 =>
      match rest with
      | b :: c :: rest =>
        if !isSecond a b then broken 1 .invalidContinuation
        else if !isTail c then broken 2 .invalidContinuation
        else (decodeFrom (pos + 3) rest).map
          (Char.ofNat ((a.toNat % 0x10 * 0x40 + tailBits b) * 0x40 + tailBits c) :: ·)
      | [b] => if isSecond a b then broken 2 .unexpectedEnd else broken 1 .invalidContinuation
      | [] => broken 1 .unexpectedEnd
    | 4 =>
      match rest with
      | b :: c :: d :: rest =>
        if !isSecond a b then broken 1 .invalidContinuation
        else if !isTail c then broken 2 .invalidContinuation
        else if !isTail d then broken 3 .invalidContinuation
        else (decodeFrom (pos + 4) rest).map
          (Char.ofNat (((a.toNat % 8 * 0x40 + tailBits b) * 0x40 + tailBits c) * 0x40
            + tailBits d) :: ·)
      | [b, c] =>
        if !isSecond a b then broken 1 .invalidContinuation
        else if !isTail c then broken 2 .invalidContinuation
        else broken 3 .unexpectedEnd
      | [b] => if isSecond a b then broken 2 .unexpectedEnd else broken 1 .invalidContinuation
      | [] => broken 1 .unexpectedEnd
    | _ => broken 1 .invalidStart

/-- The text that the bytes spell, or their first fault. -/
def decode (bytes : List UInt8) : Except Fault Text := decodeFrom 0 bytes

/-- The bytes of a text. -/
def encode (t : Text) : List UInt8 := t.flatMap String.utf8EncodeChar

/-- A carriage return, alone or before a line feed, ends a line as a line feed does. -/
def translateNewlines : Text → Text
  | [] => []
  | '\r' :: '\n' :: cs => '\n' :: translateNewlines cs
  | '\r' :: cs => '\n' :: translateNewlines cs
  | c :: cs => c :: translateNewlines cs

end Utf8

end StyleImport
