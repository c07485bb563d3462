/-
  StackCalc.Text.Utf8

  Texts as bytes.  Every character has one form of one to four bytes: the first byte
  says how many, the others lie in bounds that the first may narrow.  A file is decoded
  block by block; the bytes at the end of a block that may yet become a character go in
  front of the next one, and the position of a fault counts from there.
-/

import StackCalc.Text.Quoted

namespace StackCalc
namespace Text
namespace Utf8

/-! ## Faults -/

/-- Why bytes are no text: a byte cannot start a character, a byte cannot go on with
    it, or the bytes end inside of one. -/
inductive Reason where
  | start
  | continuation
  | unfinished
deriving DecidableEq, Repr

/-- The wording of a reason. -/
def Reason.message : Reason → String
  | start => "invalid start byte"
  | continuation => "invalid continuation byte"
  | unfinished => "unexpected end of data"

/-- Bytes that are no text: the first of them, where it stands, how many they are, and
    what is wrong with them. -/
structure Fault where
  first : UInt8
  position : Nat
  count : Nat
  reason : Reason
deriving DecidableEq, Repr

/-- The wording of a fault. -/
def Fault.message (fault : Fault) : String :=
  let place :=
    if fault.count = 1 then
      "byte 0x" ++ String.ofList (hexDigits 2 fault.first.toNat) ++ " in position "
        ++ toString fault.position
    else
      "bytes in position " ++ toString fault.position ++ "-"
        ++ toString (fault.position + fault.count - 1)
  "\'utf-8\' codec can\'t decode " ++ place ++ ": " ++ fault.reason.message

/-! ## Characters -/

/-- What the first byte of a character says: how many bytes follow, its own part of the
    code point, and the bounds of the byte that comes next. -/
structure Form where
  more : Nat
  high : Nat
  least : Nat
  greatest : Nat
deriving DecidableEq, Repr

/-- The form that a byte starts, if it starts any. -/
def form? (n : Nat) : Option Form :=
  if n < 0x80 then some ⟨0, n, 0x80, 0xBF⟩
  else if n < 0xC2 then none
  else if n < 0xE0 then some ⟨1, n - 0xC0, 0x80, 0xBF⟩
  else if n < 0xF0 then
    some ⟨2, n - 0xE0, if n = 0xE0 then 0xA0 else 0x80, if n = 0xED then 0x9F else 0xBF⟩
  else if n < 0xF5 then
    some ⟨3, n - 0xF0, if n = 0xF0 then 0x90 else 0x80, if n = 0xF4 then 0x8F else 0xBF⟩
  else none

/-- Whether a byte lies within bounds. -/
def within (least greatest : Nat) (byte : UInt8) : Bool :=
  least ≤ byte.toNat && byte.toNat ≤ greatest

/-- The bytes that go on with a character of a form. -/
def tail (form : Form) : List UInt8 → List UInt8
  | [] => []
  | next :: rest =>
    if form.more ≠ 0 && within form.least form.greatest next then
      next :: (rest.take (form.more - 1)).takeWhile (within 0x80 0xBF)
    else []

/-- The character of a form with its other bytes. -/
def character (form : Form) (others : List UInt8) : Char :=
  Char.ofNat (others.foldl (fun n byte => n * 64 + (byte.toNat - 0x80)) form.high)

/-- What bytes begin with: a character and how many bytes of it follow the first, a
    piece of a character that takes up all of them, or a fault over some bytes. -/
inductive Beginning where
  | whole (c : Char) (more : Nat)
  | piece
  | faulty (reason : Reason) (count : Nat)
deriving DecidableEq, Repr

/-- What a byte and those behind it begin with. -/
def beginning (first : UInt8) (rest : List UInt8) : Beginning :=
  match form? first.toNat with
  | none => .faulty .start 1
  | some form =>
    let others := tail form rest
    if others.length = form.more then .whole (character form others) form.more
    else if others.length = rest.length then .piece
    else .faulty .continuation (others.length + 1)

/-! ## Texts -/

/-- Whether bytes are the first two of half a surrogate pair, which is kept for the next
    block although no byte can make it a character. -/
def isHalfPair : List UInt8 → Bool
  | [first, next] => first.toNat = 0xED && within 0xA0 0xBF next
  | _ => false

/-- The characters of a block, last first and in front of those before it, and the bytes
    that are kept for the next block; the last block keeps none. -/
def decodeBlock (last : Bool) (position : Nat) (done : List Char) (bytes : List UInt8) :
    Except Fault (List Char × List UInt8) :=
  match bytes with
  | [] => .ok (done, [])
  | first :: rest =>
    match beginning first rest with
    | .whole c more => decodeBlock last (position + more + 1) (c :: done) (rest.drop more)
    | .piece =>
      if last then .error ⟨first, position, rest.length + 1, .unfinished⟩
      else .ok (done, first :: rest)
    | .faulty reason count =>
      if !last && isHalfPair (first :: rest) then .ok (done, first :: rest)
      else .error ⟨first, position, count, reason⟩
termination_by bytes.length
decreasing_by
  simp only [List.length_cons, List.length_drop]
  omega

/-- How many bytes of a file make a block. -/
def blockSize : Nat := 8192

/-- The characters of a file, last first, behind those before it and the bytes that were
    kept. -/
def decodeBlocks (done : List Char) (kept bytes : List UInt8) : Except Fault (List Char) :=
  match bytes with
  | [] => (decodeBlock true 0 done kept).map (·.1)
  | first :: rest =>
    match decodeBlock false 0 done (kept ++ (first :: rest).take blockSize) with
    | .ok (done, kept) => decodeBlocks done kept ((first :: rest).drop blockSize)
    | .error fault => .error fault
termination_by bytes.length
decreasing_by
  simp only [List.length_cons, List.length_drop, blockSize]
  omega

/-- The text of a file. -/
def decode (bytes : List UInt8) : Except Fault String :=
  (decodeBlocks [] [] bytes).map fun done => String.ofList done.reverse

end Utf8
end Text
end StackCalc
