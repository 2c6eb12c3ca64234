import HarnessSphere.Domain.Signal
import HarnessSphere.Collectors.Files

/-! # JSON text by lines

The JSON parser is a parameter of everything that reads records: it takes a line and may refuse it.
The rest of a record's way is here, from the bytes of a file to the lines and to the members of a
parsed value.
-/

namespace HarnessSphere

namespace Json

/-- `serde_json::Value`; an object holds each key once. -/
inductive Value where
  | null
  | bool (value : Bool)
  | number (value : F64)
  | string (value : String)
  | array (values : List Value)
  | object (fields : List (String × Value))

namespace Value

def get : Value → String → Option Value
  | object fields, key => fields.lookup key
  | _, _ => none

def asStr : Value → Option String
  | string s => some s
  | _ => none

def asArray : Value → Option (List Value)
  | array vs => some vs
  | _ => none

end Value

/-- `serde_json::from_str` into a `Value`. -/
abbrev FromStr := List Char → Option Value

end Json

/-- `char::is_whitespace`, the property `White_Space`. -/
def isWhitespace (c : Char) : Bool :=
  (0x09 ≤ c.toNat ∧ c.toNat ≤ 0x0D) ∨ (0x2000 ≤ c.toNat ∧ c.toNat ≤ 0x200A) ∨
    c.toNat ∈ [0x20, 0x85, 0xA0, 0x1680, 0x2028, 0x2029, 0x202F, 0x205F, 0x3000]

def trim (text : List Char) : List Char := (text.dropWhile isWhitespace).rdropWhile isWhitespace

def stripSuffix (c : Char) (text : List Char) : Option (List Char) :=
  if text.getLast? = some c then some text.dropLast else none

/-- What `str::lines` takes off a piece: a newline, and a carriage return before it. -/
def stripTerminator (piece : List Char) : List Char :=
  match stripSuffix '\n' piece with
  | none => piece
  | some line => (stripSuffix '\r' line).getD line

def lines (text : List Char) : List (List Char) :=
  (Lines.splitInclusive '\n' text).map stripTerminator

def startsWith (text start : String) : Bool := start.toList.isPrefixOf text.toList

def newline : UInt8 := 10

namespace Utf8

theorem newline_mem_encodeChar {c : Char} (hc : c ≠ '\n') :
    newline ∉ String.utf8EncodeChar c ∧ String.utf8EncodeChar c ≠ [] :=
  ⟨fun h => hc ((mem_encodeChar_iff (by decide) (by decide) c).mp h),
    String.utf8EncodeChar_ne_nil⟩

theorem splitInclusive_encode (cs : List Char) :
    Lines.splitInclusive newline (encode cs) = (Lines.splitInclusive '\n' cs).map encode :=
  Lines.splitInclusive_flatMap (by decide) (fun _ => newline_mem_encodeChar) cs

theorem complete_encode (cs : List Char) :
    Lines.complete newline (encode cs) = encode (Lines.complete '\n' cs) :=
  Lines.complete_flatMap (by decide) (fun _ => newline_mem_encodeChar) cs

end Utf8

section Weights

variable {M : Type*} [AddCommMonoid M] (weight : List Char → M)

/-- The weight of a piece of a file: that of its line, or nothing if the piece is not UTF-8. -/
def pieceWeight (piece : List UInt8) : M :=
  match Utf8.decode piece with
  | none => 0
  | some text => weight (stripTerminator text)

variable {weight}

theorem pieceWeight_encode (cs : List Char) :
    pieceWeight weight (Utf8.encode cs) = weight (stripTerminator cs) := by
  simp [pieceWeight]

theorem total_encode (cs : List Char) :
    Lines.total newline (pieceWeight weight) (Utf8.encode cs) = ((lines cs).map weight).sum := by
  rw [Lines.total, Utf8.splitInclusive_encode, lines, List.map_map, List.map_map]
  congr 1
  exact List.map_congr_left fun s _ => pieceWeight_encode s

end Weights

example : lines "one\ntwo\r\nthree".toList = ["one".toList, "two".toList, "three".toList] := by decide

end HarnessSphere
