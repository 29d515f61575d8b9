import Mathlib

-- Text as bytes, and what is read of bytes that aren't text.
namespace Utf8

def encode (cs : List Char) : List UInt8 := cs.flatMap String.utf8EncodeChar

def decodeChar? (bytes : List UInt8) : Option Char :=
  (ByteArray.mk bytes.toArray).utf8DecodeChar? 0

def isContinuation (b : UInt8) : Bool := b &&& 0xc0 == 0x80

-- Whether two bytes begin some character of at least three.
def begins (lead second : UInt8) : Bool :=
  if lead == 0xe0 then 0xa0 ≤ second && second ≤ 0xbf
  else if lead == 0xed then 0x80 ≤ second && second ≤ 0x9f
  else if lead == 0xf0 then 0x90 ≤ second && second ≤ 0xbf
  else if lead == 0xf4 then 0x80 ≤ second && second ≤ 0x8f
  else 0xe1 ≤ lead && lead ≤ 0xf3 && isContinuation second

-- How many of the bytes, which begin with no character, one replacement character stands for: as
-- many as begin some character, and at least one.
def illFormed : List UInt8 → Nat
  | lead :: second :: rest =>
    if begins lead second then
      match rest with
      | third :: _ => if 0xf0 ≤ lead && isContinuation third then 3 else 2
      | []         => 2
    else 1
  | _ => 1

def replacement : Char := '\uFFFD'

-- The characters in the bytes, with one step for each.
def chars : Nat → List UInt8 → List Char
  | 0, _          => []
  | _, []         => []
  | steps + 1, bytes =>
    match decodeChar? bytes with
    | some c => c :: chars steps (bytes.drop c.utf8Size)
    | none   => replacement :: chars steps (bytes.drop (illFormed bytes))

def ofBytes (bytes : List UInt8) : List Char := chars bytes.length bytes

end Utf8

def String.utf8 (s : String) : List UInt8 := Utf8.encode s.toList

-- `from_utf8_lossy`
def String.fromUtf8Lossy (bytes : List UInt8) : String := .ofList (Utf8.ofBytes bytes)

namespace Utf8

variable {bytes rest : List UInt8} {c : Char} {cs : List Char}

@[simp]
theorem encode_nil : encode [] = [] :=
  rfl

@[simp]
theorem encode_cons : encode (c :: cs) = String.utf8EncodeChar c ++ encode cs :=
  rfl

theorem decodeChar?_encode : decodeChar? (String.utf8EncodeChar c ++ rest) = some c := by
  have h : (ByteArray.mk (String.utf8EncodeChar c ++ rest).toArray) =
      (String.utf8EncodeChar c).toByteArray ++ ByteArray.mk rest.toArray := by
    ext1
    simp
  rw [decodeChar?, h]
  exact ByteArray.utf8DecodeChar?_utf8EncodeChar_append

-- A character is only read where its encoding stands.
theorem eq_of_decodeChar? (h : decodeChar? bytes = some c) :
    bytes = String.utf8EncodeChar c ++ bytes.drop c.utf8Size := by
  have ⟨rest, h⟩ := ByteArray.exists_of_utf8DecodeChar?_eq_some h
  have hb : bytes = String.utf8EncodeChar c ++ rest.data.toList := by
    simpa using congrArg (·.data.toList) h
  have hl : (String.utf8EncodeChar c).length = c.utf8Size := String.length_utf8EncodeChar c
  rw [hb, ←hl, List.drop_left]

theorem illFormed_pos : 0 < illFormed bytes := by
  fun_cases illFormed <;> decide

theorem chars_encode (h : (encode cs).length ≤ n) : chars n (encode cs) = cs := by
  induction cs generalizing n
  case nil => cases n <;> rfl
  case cons c cs hi =>
    have hc := c.utf8Size_pos
    have hl : (String.utf8EncodeChar c).length = c.utf8Size := String.length_utf8EncodeChar c
    rw [encode_cons, List.length_append] at h
    cases n
    case zero => omega
    case succ n =>
      have hi : chars n (encode cs) = cs := hi (by omega)
      have hd : (String.utf8EncodeChar c ++ encode cs).drop c.utf8Size = encode cs := by
        rw [←hl, List.drop_left]
      cases he : String.utf8EncodeChar c ++ encode cs
      case nil => simp [←hl, (List.append_eq_nil_iff.mp he).left] at hc
      case cons b bytes =>
        rw [he] at hd
        have hs : decodeChar? (b :: bytes) = some c := he ▸ decodeChar?_encode
        simp [chars, he, hs, hd, hi]

theorem chars_ne_nil (h : bytes ≠ []) (hl : bytes.length ≤ n) : chars n bytes ≠ [] := by
  cases n
  case zero => simp_all
  case succ =>
    cases bytes
    case nil => contradiction
    case cons => simp only [chars]; split <;> simp

-- Where nothing was replaced, the characters are the ones the bytes encode.
theorem encode_chars (h : replacement ∉ chars n bytes) (hl : bytes.length ≤ n) :
    encode (chars n bytes) = bytes := by
  induction n generalizing bytes
  case zero => simp_all [chars]
  case succ n hi =>
    cases bytes
    case nil => rfl
    case cons b bytes =>
      simp only [chars] at h ⊢
      split at h
      case h_2 => simp at h
      case h_1 c hc =>
        have hp := c.utf8Size_pos
        have hd : ((b :: bytes).drop c.utf8Size).length ≤ n := by
          rw [List.length_drop]
          omega
        simp only [encode_cons, hi (fun hm => h (by simp [hm])) hd]
        exact (eq_of_decodeChar? hc).symm

theorem ofBytes_encode : ofBytes (encode cs) = cs :=
  chars_encode (le_refl _)

end Utf8

namespace String

variable {s : String} {bytes : List UInt8}

@[simp]
theorem fromUtf8Lossy_utf8 : fromUtf8Lossy s.utf8 = s := by
  rw [fromUtf8Lossy, utf8, Utf8.ofBytes_encode, ofList_toList]

theorem fromUtf8Lossy_ne_empty (h : bytes ≠ []) : fromUtf8Lossy bytes ≠ "" := by
  intro he
  have hc := Utf8.chars_ne_nil h (le_refl _)
  exact hc (ofList_injective (he.trans rfl))

theorem utf8_append (s t : String) : (s ++ t).utf8 = s.utf8 ++ t.utf8 := by
  simp only [utf8, Utf8.encode, toList_append, List.flatMap_append]

theorem length_utf8 (s : String) : s.utf8.length = s.utf8ByteSize := by
  have h := congrArg ByteArray.size (utf8Encode_toList (b := s))
  rw [List.utf8Encode, List.size_toByteArray] at h
  exact h

theorem utf8_fromUtf8Lossy (h : Utf8.replacement ∉ (fromUtf8Lossy bytes).toList) :
    (fromUtf8Lossy bytes).utf8 = bytes := by
  simp only [fromUtf8Lossy, toList_ofList, utf8] at h ⊢
  exact Utf8.encode_chars h (le_refl _)

end String
