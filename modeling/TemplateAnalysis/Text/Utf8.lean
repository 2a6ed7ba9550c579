import TemplateAnalysis.Text.Quoted

/-! # UTF-8

    Text files hold UTF-8. When the bytes of a file are none, the first place
    where that shows is reported: the bytes from the start of a character up
    to the one that does not belong, and what is wrong with them.
-/

namespace TemplateAnalysis.Text

/-- What is wrong with bytes that are no UTF-8. -/
inductive Utf8Problem
  /-- No character starts with this byte. -/
  | startByte
  /-- The character does not go on with this byte. -/
  | continuationByte
  /-- The text ends within a character. -/
  | endOfData
  deriving DecidableEq, Repr

/-- The words for a problem. -/
def Utf8Problem.message : Utf8Problem → String
  | .startByte => "invalid start byte"
  | .continuationByte => "invalid continuation byte"
  | .endOfData => "unexpected end of data"

/-- A problem with `length` bytes, the first of which is `byte`, at a position. -/
structure Utf8Error where
  problem : Utf8Problem
  position : Nat
  length : Nat
  byte : UInt8
  deriving DecidableEq, Repr

/-- The words for a problem and its place. -/
def Utf8Error.message (error : Utf8Error) : String :=
  let place :=
    if error.length = 1 then
      "byte 0x" ++ String.ofList (hexDigits 2 error.byte.toNat) ++ " in position " ++
        toString error.position
    else
      "bytes in position " ++ toString error.position ++ "-" ++
        toString (error.position + error.length - 1)
  "'utf-8' codec can't decode " ++ place ++ ": " ++ error.problem.message

/-- How the bytes behind a start byte may go on: the least and the greatest
    second byte, and how many bytes there are in all. -/
structure Utf8Form where
  least : UInt8
  greatest : UInt8
  length : Nat
  deriving DecidableEq, Repr

/-- The form of the characters that start with a byte beyond ASCII. -/
def utf8Form? (byte : UInt8) : Option Utf8Form :=
  if byte < 0xC2 then none
  else if byte < 0xE0 then some ⟨0x80, 0xBF, 2⟩
  else if byte = 0xE0 then some ⟨0xA0, 0xBF, 3⟩
  else if byte = 0xED then some ⟨0x80, 0x9F, 3⟩
  else if byte < 0xF0 then some ⟨0x80, 0xBF, 3⟩
  else if byte = 0xF0 then some ⟨0x90, 0xBF, 4⟩
  else if byte < 0xF4 then some ⟨0x80, 0xBF, 4⟩
  else if byte = 0xF4 then some ⟨0x80, 0x8F, 4⟩
  else none

/-- What is wrong with the bytes behind the first `read` bytes of a character,
    with the number of bytes to report. -/
def continuationProblem? (form : Utf8Form) (read : Nat) : List UInt8 → Option (Utf8Problem × Nat)
  | bytes =>
    if form.length ≤ read then none
    else match bytes with
      | [] => some (.endOfData, read)
      | b :: rest =>
        let fits := if read = 1 then form.least ≤ b && b ≤ form.greatest
          else 0x80 ≤ b && b ≤ 0xBF
        if fits then continuationProblem? form (read + 1) rest
        else some (.continuationByte, read)

/-- The first problem of the bytes that stand at a position. -/
def utf8ErrorFrom? (position : Nat) : List UInt8 → Option Utf8Error
  | [] => none
  | byte :: rest =>
    if byte < 0x80 then utf8ErrorFrom? (position + 1) rest
    else match utf8Form? byte with
      | none => some ⟨.startByte, position, 1, byte⟩
      | some form =>
        match continuationProblem? form 1 rest with
        | some (problem, length) => some ⟨problem, position, length, byte⟩
        | none => utf8ErrorFrom? (position + form.length) (rest.drop (form.length - 1))
termination_by bytes => bytes.length

/-- The text that bytes stand for. -/
def decodeUtf8 (bytes : ByteArray) : Except Utf8Error String :=
  match String.fromUTF8? bytes with
  | some text => .ok text
  | none => .error ((utf8ErrorFrom? 0 bytes.toList).getD ⟨.endOfData, 0, bytes.size, 0⟩)

end TemplateAnalysis.Text
