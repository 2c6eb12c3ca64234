import Mathlib.Data.List.Lex
import Mathlib.Data.Char

/-! # UTF-8 on byte lists

The encoder and the decoder are the core library's, read on lists. What the file readers need is
that decoding is the exact inverse of encoding, that a valid prefix can be cut off, that the byte of
an ASCII character occurs nowhere inside another character, and that texts are ordered as their bytes.
-/

namespace HarnessSphere.Utf8

def encode (cs : List Char) : List UInt8 := cs.flatMap String.utf8EncodeChar

def decode (bs : List UInt8) : Option (List Char) :=
  bs.toByteArray.utf8Decode?.map Array.toList

def Valid (bs : List UInt8) : Prop := ∃ cs, encode cs = bs

@[simp] theorem encode_nil : encode [] = [] := rfl

@[simp] theorem encode_cons (c : Char) (cs : List Char) :
    encode (c :: cs) = String.utf8EncodeChar c ++ encode cs := rfl

@[simp] theorem encode_append (cs ds : List Char) : encode (cs ++ ds) = encode cs ++ encode ds :=
  List.flatMap_append

theorem utf8Encode_eq (cs : List Char) : cs.utf8Encode = (encode cs).toByteArray := rfl

@[simp] theorem decode_encode (cs : List Char) : decode (encode cs) = some cs := by
  rw [decode, ← utf8Encode_eq, List.utf8Decode?_utf8Encode]
  rfl

theorem encode_of_decode {bs : List UInt8} {cs : List Char} (h : decode bs = some cs) :
    encode cs = bs := by
  obtain ⟨chars, hChars, rfl⟩ := Option.map_eq_some_iff.mp h
  have hSome : bs.toByteArray.utf8Decode?.isSome := by simp [hChars]
  have hBytes := @ByteArray.utf8Encode_get_utf8Decode? bs.toByteArray hSome
  simp only [hChars, Option.get_some, utf8Encode_eq] at hBytes
  simpa using congrArg (fun b => b.data.toList) hBytes

theorem decode_eq_some_iff {bs : List UInt8} {cs : List Char} :
    decode bs = some cs ↔ encode cs = bs :=
  ⟨encode_of_decode, fun h => h ▸ decode_encode cs⟩

theorem encode_injective {cs ds : List Char} (h : encode cs = encode ds) : cs = ds :=
  Option.some.inj ((decode_encode cs).symm.trans (h ▸ decode_encode ds))

theorem decode_isSome_iff {bs : List UInt8} : (decode bs).isSome ↔ Valid bs := by
  rw [Option.isSome_iff_exists]
  exact exists_congr fun _ => decode_eq_some_iff

theorem valid_encode (cs : List Char) : Valid (encode cs) := ⟨cs, rfl⟩

theorem Valid.append {bs cs : List UInt8} : Valid bs → Valid cs → Valid (bs ++ cs) := by
  rintro ⟨xs, rfl⟩ ⟨ys, rfl⟩
  exact ⟨xs ++ ys, encode_append xs ys⟩

theorem decodeChar_append (c : Char) (bs : List UInt8) :
    (String.utf8EncodeChar c ++ bs).toByteArray.utf8DecodeChar? 0 = some c := by
  rw [List.toByteArray_append]
  exact ByteArray.utf8DecodeChar?_utf8EncodeChar_append

/-- The first character of a byte list is determined by the list, so a valid prefix of a valid text
leaves a valid rest. -/
theorem split_encode {cs ds : List Char} {rest : List UInt8} (h : encode ds = encode cs ++ rest) :
    ∃ es, ds = cs ++ es ∧ rest = encode es := by
  induction cs generalizing ds with
  | nil => exact ⟨ds, rfl, h.symm⟩
  | cons c cs ih =>
    cases ds with
    | nil =>
      have hNe : String.utf8EncodeChar c ≠ [] := String.utf8EncodeChar_ne_nil
      simp only [encode_nil, encode_cons, List.append_assoc] at h
      exact absurd (List.append_eq_nil_iff.mp h.symm).1 hNe
    | cons d ds =>
      simp only [encode_cons, List.append_assoc] at h
      have hHead : d = c := by
        have hd := decodeChar_append d (encode ds)
        rw [h, decodeChar_append] at hd
        exact (Option.some.inj hd).symm
      subst hHead
      obtain ⟨es, rfl, hRest⟩ := ih (List.append_cancel_left h)
      exact ⟨es, rfl, hRest⟩

theorem Valid.of_append {bs rest : List UInt8} (hBytes : Valid bs) (hAll : Valid (bs ++ rest)) :
    Valid rest := by
  obtain ⟨cs, rfl⟩ := hBytes
  obtain ⟨ds, hDs⟩ := hAll
  obtain ⟨es, -, rfl⟩ := split_encode hDs
  exact valid_encode es

theorem Valid.drop {bs : List UInt8} {n : Nat} (hTake : Valid (bs.take n)) (hAll : Valid bs) :
    Valid (bs.drop n) :=
  Valid.of_append hTake (by rwa [List.take_append_drop])

theorem not_ascii_or {b h : UInt8} (hHigh : 128 ≤ h) (hAscii : b < 128) (x : UInt8) :
    b ≠ x ||| h := by
  rintro rfl
  have hOr := Nat.right_le_or (n := x.toNat) (m := h.toNat)
  rw [UInt8.lt_iff_toNat_lt, UInt8.toNat_or] at hAscii
  have hTop := UInt8.le_iff_toNat_le.mp hHigh
  omega

theorem ascii_mem_encodeChar {b : UInt8} (hAscii : b < 128) {c : Char}
    (h : b ∈ String.utf8EncodeChar c) : String.utf8EncodeChar c = [b] := by
  have hOr (x m : UInt8) (hm : 128 ≤ m) : b ≠ x ||| m := not_ascii_or hm hAscii x
  match hSize : c.utf8Size, c.utf8Size_pos, c.utf8Size_le_four with
  | 1, _, _ =>
    have hLength := String.length_utf8EncodeChar c
    rw [hSize] at hLength
    obtain ⟨x, hx⟩ := List.length_eq_one_iff.mp hLength
    rw [hx] at h ⊢
    rw [List.mem_singleton.mp h]
  | 2, _, _ =>
    rw [String.utf8EncodeChar_eq_cons_cons hSize] at h
    simp [hOr _ 0xc0 (by decide), hOr _ 0x80 (by decide)] at h
  | 3, _, _ =>
    rw [String.utf8EncodeChar_eq_cons_cons_cons hSize] at h
    simp [hOr _ 0xe0 (by decide), hOr _ 0x80 (by decide)] at h
  | 4, _, _ =>
    rw [String.utf8EncodeChar_eq_cons_cons_cons_cons hSize] at h
    simp [hOr _ 0xf0 (by decide), hOr _ 0x80 (by decide)] at h

theorem mem_encodeChar_iff {a : Char} {b : UInt8} (hAscii : b < 128)
    (hByte : String.utf8EncodeChar a = [b]) (c : Char) :
    b ∈ String.utf8EncodeChar c ↔ c = a := by
  constructor
  · intro h
    have hEq : encode [c] = encode [a] := by
      simp [ascii_mem_encodeChar hAscii h, hByte]
    exact List.singleton_inj.mp (encode_injective hEq)
  · rintro rfl
    simp [hByte]

/-- The encoding of the smaller of two characters is the smaller one at a byte that both have. -/
theorem encodeChar_append_lt {c d : Char} (h : c < d) (xs ys : List UInt8) :
    String.utf8EncodeChar c ++ xs < String.utf8EncodeChar d ++ ys := by
  have hVal : c.val.toNat < d.val.toNat := h
  have hMax : d.val.toNat ≤ 0x10ffff := by
    have hValid := d.valid
    simp only [UInt32.isValidChar, Nat.isValidChar] at hValid
    omega
  rw [String.utf8EncodeChar, String.utf8EncodeChar]
  split_ifs <;> first
    | omega
    | simp (disch := omega) only [List.cons_append, List.nil_append, List.cons_lt_cons_iff,
        UInt8.lt_iff_toNat_lt, ← UInt8.toNat_inj, UInt8.toNat_ofNat', Nat.mod_eq_of_lt]
      omega

theorem encode_lt {cs ds : List Char} (h : cs < ds) : encode cs < encode ds := by
  induction cs generalizing ds with
  | nil =>
    cases ds with
    | nil => exact absurd h (List.not_lt_nil _)
    | cons d ds =>
      have hNe : encode (d :: ds) ≠ [] := by simp [String.utf8EncodeChar_ne_nil]
      obtain ⟨b, bs, hBytes⟩ := List.exists_cons_of_ne_nil hNe
      rw [hBytes]
      exact List.nil_lt_cons b bs
  | cons c cs ih =>
    cases ds with
    | nil => exact absurd h (List.not_lt_nil _)
    | cons d ds =>
      obtain hHead | ⟨rfl, hTail⟩ := List.cons_lt_cons_iff.mp h
      · exact encodeChar_append_lt hHead _ _
      · exact List.append_left_lt (ih hTail)

theorem encode_lt_iff {cs ds : List Char} : encode cs < encode ds ↔ cs < ds := by
  refine ⟨fun h => ?_, encode_lt⟩
  obtain hLt | rfl | hGt := lt_trichotomy cs ds
  · exact hLt
  · exact absurd h (List.lt_irrefl _)
  · exact absurd h (List.lt_asymm (encode_lt hGt))

end HarnessSphere.Utf8
