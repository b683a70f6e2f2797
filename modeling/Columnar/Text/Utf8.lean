import Columnar.Text.Quoted

/-!
# UTF-8

Decoding of bytes. A sequence is two to four bytes long as its first byte says; the second byte is
restricted so that no character is written longer than necessary, no surrogate is written and no
code point passes U+10FFFF. The first offending place is reported with its bytes, its position and
a reason.
-/

namespace Columnar.Text

/-- Why bytes do not decode. -/
inductive Utf8Reason
  /-- No sequence starts with this byte. -/
  | start
  /-- A byte that should continue a sequence does not. -/
  | continuation
  /-- The bytes end inside a sequence. -/
  | truncated
deriving DecidableEq, Repr

/-- Where and why bytes do not decode: the offending bytes and the position of the first. -/
structure Utf8Fault where
  position : Nat
  bytes : List UInt8
  reason : Utf8Reason
deriving DecidableEq, Repr

namespace Utf8Reason

def text : Utf8Reason → String
  | start => "invalid start byte"
  | continuation => "invalid continuation byte"
  | truncated => "unexpected end of data"

end Utf8Reason

namespace Utf8Fault

/-- The fault in words; several bytes are shown by the range of their positions. -/
def message (f : Utf8Fault) : String :=
  let place := match f.bytes with
    | [b] => "byte 0x" ++ String.ofList (hex 2 b.toNat) ++ " in position " ++ toString f.position
    | bs => "bytes in position " ++ toString f.position ++ "-"
        ++ toString (f.position + bs.length - 1)
  "'utf-8' codec can't decode " ++ place ++ ": " ++ f.reason.text

end Utf8Fault

namespace Utf8

/-- How many bytes follow a first byte; none if it starts no sequence. -/
def following? (b : UInt8) : Option Nat :=
  if b < 0x80 then some 0
  else if b < 0xC2 then none
  else if b < 0xE0 then some 1
  else if b < 0xF0 then some 2
  else if b < 0xF5 then some 3
  else none

/-- May `b` be the second byte behind `first`? -/
def secondFits (first b : UInt8) : Bool :=
  let low : UInt8 := if first = 0xE0 then 0xA0 else if first = 0xF0 then 0x90 else 0x80
  let high : UInt8 := if first = 0xED then 0x9F else if first = 0xF4 then 0x8F else 0xBF
  low ≤ b && b ≤ high

/-- May `b` be a later byte of a sequence? -/
def continues (b : UInt8) : Bool := 0x80 ≤ b && b ≤ 0xBF

/-- The continuation bytes that a sequence starting with `first` has at the head of the input, at
most `count` of them. -/
def continuation (first : UInt8) (count : Nat) (rest : List UInt8) : List UInt8 :=
  match rest with
  | [] => []
  | b :: more =>
    if count = 0 ∨ !secondFits first b then []
    else b :: (more.take (count - 1)).takeWhile continues

def codePoint (first : UInt8) (rest : List UInt8) : Nat :=
  let lead := match rest.length with
    | 0 => first.toNat
    | 1 => first.toNat % 0x20
    | 2 => first.toNat % 0x10
    | _ => first.toNat % 0x08
  rest.foldl (fun n b => n * 64 + b.toNat % 64) lead

/-- Decode from a position on; at each step one sequence, with `fuel` a bound on the steps. -/
def decodeFrom : Nat → Nat → List UInt8 → Except Utf8Fault (List Char)
  | 0, _, _ => .ok []
  | _, _, [] => .ok []
  | fuel + 1, position, first :: rest =>
    match following? first with
    | none => .error ⟨position, [first], .start⟩
    | some count =>
      let tail := continuation first count rest
      if tail.length = count then
        (decodeFrom fuel (position + 1 + count) (rest.drop count)).map
          (Char.ofNat (codePoint first tail) :: ·)
      else if tail.length = rest.length then .error ⟨position, first :: tail, .truncated⟩
      else .error ⟨position, first :: tail, .continuation⟩

/-- The text that bytes write, or the first fault. -/
def decode (bytes : List UInt8) : Except Utf8Fault (List Char) :=
  decodeFrom bytes.length 0 bytes

end Utf8

end Columnar.Text
