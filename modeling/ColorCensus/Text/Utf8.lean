/-!
# UTF-8

Strict decoding: no overlong form, no surrogate, nothing past U+10FFFF. A fault names the bytes
that cannot be part of a character together with what precedes them, and why: the first byte
starts nothing, a byte does not continue what was started, or the text ends inside a character.
-/

namespace ColorCensus.Text.Utf8

inductive Reason where
  | invalidStart
  | invalidContinuation
  | unexpectedEnd
deriving DecidableEq, Repr

def Reason.message : Reason → String
  | invalidStart => "invalid start byte"
  | invalidContinuation => "invalid continuation byte"
  | unexpectedEnd => "unexpected end of data"

/-- The faulty bytes: where they start, how many they are, and the first of them. -/
structure Fault where
  start : Nat
  count : Nat
  byte : UInt8
  reason : Reason
deriving DecidableEq, Repr

/-- The number of bytes that a text takes. -/
def size (cs : List Char) : Nat := cs.foldl (fun n c => n + c.utf8Size) 0

def hexByte (b : UInt8) : String :=
  String.ofList [Nat.digitChar (b.toNat / 16), Nat.digitChar (b.toNat % 16)]

def Fault.message (f : Fault) : String :=
  let place :=
    if f.count = 1 then "byte 0x" ++ hexByte f.byte ++ " in position " ++ toString f.start
    else "bytes in position " ++ toString f.start ++ "-" ++ toString (f.start + f.count - 1)
  "'utf-8' codec can't decode " ++ place ++ ": " ++ f.reason.message

def isContinuation (b : UInt8) : Bool := 0x80 ≤ b && b < 0xC0

/-- Whether `c` may follow the first byte `b` of a character of three or four bytes. -/
def maySecond (b c : UInt8) : Bool :=
  isContinuation c &&
    (if b == 0xE0 then 0xA0 ≤ c
    else if b == 0xED then c < 0xA0
    else if b == 0xF0 then 0x90 ≤ c
    else if b == 0xF4 then c < 0x90
    else true)

/-- The six bits that a continuation byte carries. -/
def bits (b : UInt8) : Nat := b.toNat % 64

/-- The character that starts with byte `b`, and how many of the bytes after it belong to it;
otherwise the number of bytes at fault. -/
def charAt (b : UInt8) (rest : List UInt8) : Except (Reason × Nat) (Char × Nat) :=
  if b < 0x80 then .ok (Char.ofNat b.toNat, 0)
  else if b < 0xC2 || 0xF5 ≤ b then .error (.invalidStart, 1)
  else match rest with
    | [] => .error (.unexpectedEnd, 1)
    | c :: rest =>
      if b < 0xE0 then
        if isContinuation c then .ok (Char.ofNat ((b.toNat % 32) * 64 + bits c), 1)
        else .error (.invalidContinuation, 1)
      else if !maySecond b c then .error (.invalidContinuation, 1)
      else match rest with
        | [] => .error (.unexpectedEnd, 2)
        | d :: rest =>
          if !isContinuation d then .error (.invalidContinuation, 2)
          else if b < 0xF0 then
            .ok (Char.ofNat (((b.toNat % 16) * 64 + bits c) * 64 + bits d), 2)
          else match rest with
            | [] => .error (.unexpectedEnd, 3)
            | e :: _ =>
              if !isContinuation e then .error (.invalidContinuation, 3)
              else .ok (Char.ofNat ((((b.toNat % 8) * 64 + bits c) * 64 + bits d) * 64 + bits e), 3)

/-- Decodes the bytes from position `pos` on, of which `skip` belong to the last character. -/
def decodeFrom : Nat → Nat → List UInt8 → Except Fault (List Char)
  | _, _, [] => .ok []
  | skip + 1, pos, _ :: rest => decodeFrom skip (pos + 1) rest
  | 0, pos, b :: rest =>
      match charAt b rest with
      | .error (reason, count) => .error ⟨pos, count, b, reason⟩
      | .ok (c, more) => (decodeFrom more (pos + 1) rest).map (c :: ·)

def decode (bytes : List UInt8) : Except Fault (List Char) := decodeFrom 0 0 bytes

end ColorCensus.Text.Utf8

namespace ColorCensus.Text

/-- Every line end, written as it may be, becomes a single newline. -/
def unifyNewlines : List Char → List Char
  | [] => []
  | '\r' :: '\n' :: rest => '\n' :: unifyNewlines rest
  | '\r' :: rest => '\n' :: unifyNewlines rest
  | c :: rest => c :: unifyNewlines rest

end ColorCensus.Text
