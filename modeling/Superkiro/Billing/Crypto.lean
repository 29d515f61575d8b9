import Superkiro.Lib.JsonText
import Superkiro.Lib.Slices
import Superkiro.Lib.Text
import Superkiro.Lib.Utf8Prefix

-- How provider keys are stored, and how they are moved to another master key.
namespace Billing

open Json (hexDigit)
open String (utf8Len)

-- Why a number isn't read.
inductive ParseIntError
  | empty
  | invalidDigit
  | posOverflow
  deriving DecidableEq

inductive HexError
  | oddLength
  | invalidByte (pair : List Char) (e : ParseIntError)
  deriving DecidableEq

inductive CryptoError
  | invalidKekLength (expected actual : Nat)
  | hexDecodeError (e : HexError)
  | encryptionError
  | decryptionError
  | invalidCiphertextFormat
  deriving DecidableEq

-- What comes of a call: a value or an error, or nothing where it panics.
abbrev Outcome (ε α : Type) := ExceptT ε Option α

namespace Hex

-- `to_digit(16)`
def digit? (c : Char) : Option Nat :=
  if '0' ≤ c && c ≤ '9' then some (c.toNat - 48)
  else if 'a' ≤ c && c ≤ 'f' then some (c.toNat - 87)
  else if 'A' ≤ c && c ≤ 'F' then some (c.toNat - 55)
  else none

-- `from_str_radix`, which also reads a sign before the digits.
def parseDigits (n : Nat) : List Char → Except ParseIntError UInt8
  | []      => .ok (.ofNat n)
  | c :: cs =>
    match digit? c with
    | none   => .error .invalidDigit
    | some d => if n * 16 + d < 256 then parseDigits (n * 16 + d) cs else .error .posOverflow

def fromStrRadix : List Char → Except ParseIntError UInt8
  | []           => .error .empty
  | ['+'] | ['-'] => .error .invalidDigit
  | '+' :: cs    => parseDigits 0 cs
  | cs           => parseDigits 0 cs

def encode (bytes : List UInt8) : String :=
  .ofList (bytes.flatMap fun b => [hexDigit (b.toNat / 16), hexDigit (b.toNat % 16)])

-- Reads the pairs at some offsets, up to the first one that's refused.
def decodeAt (hex : List Char) : List Nat → Outcome HexError (List UInt8)
  | []      => pure []
  | i :: is => do
    let pair ← ExceptT.lift (Slices.slice i (i + 2) hex)
    match fromStrRadix pair with
    | .error e => throw (.invalidByte pair e)
    | .ok b    => return b :: (← decodeAt hex is)

def decode (hex : String) : Outcome HexError (List UInt8) :=
  if Text.len hex % 2 ≠ 0 then throw .oddLength
  else decodeAt hex.toList ((List.range (Text.len hex / 2)).map (2 * ·))

end Hex

def kekLen : Nat := 32

def nonceLen : Nat := 12

abbrev Nonce := Vector UInt8 nonceLen

structure MasterKek where
  key : Vector UInt8 kekLen
  deriving DecidableEq

-- An authenticated encryption. What it seals under a key and a nonce opens under them.
class Aead where
  sealed (kek : MasterKek) (nonce : Nonce) (plaintext : List UInt8) : Option (List UInt8)
  opened (kek : MasterKek) (nonce : Nonce) (payload : List UInt8) : Option (List UInt8)
  opened_sealed :
    sealed kek nonce plaintext = some payload → opened kek nonce payload = some plaintext

-- An error of the hex reader as one of its callers'.
def hexDecoded (hex : String) : Outcome CryptoError (List UInt8) :=
  (Hex.decode hex).adapt .hexDecodeError

-- `split(':')`
def parts (s : String) : List String := (Text.splitAt ':' s.toList).map .ofList

namespace MasterKek

def fromHex (hex : String) : Outcome CryptoError MasterKek := do
  let bytes ← hexDecoded (Text.trim hex)
  if h : bytes.length = kekLen then return ⟨⟨bytes.toArray, h⟩⟩
  else throw (.invalidKekLength kekLen bytes.length)

variable [Aead] (kek : MasterKek)

-- There's no nonce when the system has no randomness.
def encrypt (nonce : Option Nonce) (plaintext : String) : Except CryptoError String :=
  match nonce.bind fun n => (Aead.sealed kek n plaintext.utf8).map (n, ·) with
  | none              => .error .encryptionError
  | some (n, payload) => .ok ("v1:" ++ Hex.encode n.toList ++ ":" ++ Hex.encode payload)

def decrypt (ciphertext : String) : Outcome CryptoError String :=
  match parts ciphertext with
  | [version, nonce, payload] => do
    if version ≠ "v1" then throw .invalidCiphertextFormat
    let nonce ← hexDecoded nonce
    if h : nonce.length = nonceLen then do
      let payload ← hexDecoded payload
      match (Aead.opened kek ⟨nonce.toArray, h⟩ payload).map Utf8.fromUtf8 with
      | some (text, []) => return .ofList text
      | _               => throw .decryptionError
    else throw .invalidCiphertextFormat
  | _ => throw .invalidCiphertextFormat

end MasterKek

section

variable [Aead] (old new : MasterKek)

def rotateProviderKey (nonce : Option Nonce) (ciphertext : String) :
    Outcome CryptoError String := do
  let plaintext ← old.decrypt ciphertext
  ExceptT.mk (some (new.encrypt nonce plaintext))

-- The keys are written back one by one. What's left of them is told besides.
def rotateAllProviderKeys (nonces : Nat → Option Nonce) :
    List String → Outcome CryptoError Nat × List String
  | []          => (pure 0, [])
  | cipher :: keys =>
    match rotateProviderKey old new (nonces 0) cipher with
    | none               => (none, cipher :: keys)
    | some (.error e)    => (throw e, cipher :: keys)
    | some (.ok rotated) =>
      let (count, keys) := rotateAllProviderKeys (fun n => nonces (n + 1)) keys
      ((· + 1) <$> count, rotated :: keys)

end

namespace Hex

-- The number in two characters.
def pair? (c d : Char) : Option UInt8 :=
  if c = '+' then (digit? d).map .ofNat
  else (digit? c).bind fun hi => (digit? d).map fun lo => .ofNat (hi * 16 + lo)

-- A text of pairs that are all read, and their numbers.
inductive Pairs : List Char → List UInt8 → Prop
  | nil : Pairs [] []
  | cons : pair? c d = some b → Pairs rest bs → Pairs (c :: d :: rest) (b :: bs)

-- A text whose first two bytes end within a character.
inductive Cut : List Char → Prop
  | first : 2 < c.utf8Size → Cut (c :: rest)
  | second : c.utf8Size = 1 → 1 < d.utf8Size → Cut (c :: d :: rest)

-- A text whose first two bytes are characters, but no number.
inductive Stops : List Char → Prop
  | wide : c.utf8Size = 2 → Stops (c :: rest)
  | pair : c.utf8Size = 1 → d.utf8Size = 1 → pair? c d = none → Stops (c :: d :: rest)

variable {hex rest read tail : List Char} {c d : Char} {bs : List UInt8} {b : UInt8} {i n : Nat}
  {s : String}

theorem le_iff_toNat {c d : Char} : c ≤ d ↔ c.toNat ≤ d.toNat := by
  rw [Char.le_def, UInt32.le_iff_toNat_le]
  rfl

theorem digit?_eq_some : digit? c = some n ↔ (48 ≤ c.toNat ∧ c.toNat ≤ 57 ∧ n = c.toNat - 48) ∨
    (97 ≤ c.toNat ∧ c.toNat ≤ 102 ∧ n = c.toNat - 87) ∨
    (65 ≤ c.toNat ∧ c.toNat ≤ 70 ∧ n = c.toNat - 55) := by
  have h₁ : '0'.toNat = 48 := rfl
  have h₂ : '9'.toNat = 57 := rfl
  have h₃ : 'a'.toNat = 97 := rfl
  have h₄ : 'f'.toNat = 102 := rfl
  have h₅ : 'A'.toNat = 65 := rfl
  have h₆ : 'F'.toNat = 70 := rfl
  simp only [digit?, le_iff_toNat, h₁, h₂, h₃, h₄, h₅, h₆, Bool.and_eq_true, decide_eq_true_eq]
  split
  case isTrue h =>
    rw [Option.some.injEq]
    omega
  case isFalse h =>
    split
    case isTrue h =>
      rw [Option.some.injEq]
      omega
    case isFalse h' =>
      split
      case isTrue h =>
        rw [Option.some.injEq]
        omega
      case isFalse h'' =>
        simp only [reduceCtorEq, false_iff]
        omega

theorem digit?_lt (h : digit? c = some n) : n < 16 := by
  have := digit?_eq_some.mp h
  omega

-- Digits are single bytes.
theorem utf8Size_of_digit? (h : digit? c = some n) : c.utf8Size = 1 := by
  have h := digit?_eq_some.mp h
  have hc : c.toNat ≤ 127 := by omega
  exact Char.utf8Size_eq_one_iff.mpr (UInt32.le_iff_toNat_le.mpr hc)

theorem parseDigits_one : parseDigits 0 [d] =
    match digit? d with
    | none   => .error .invalidDigit
    | some n => .ok (.ofNat n) := by
  rw [parseDigits]
  cases h : digit? d
  case none => rfl
  case some n =>
    have := digit?_lt h
    simp only [Nat.zero_mul, Nat.zero_add]
    rw [if_pos (by omega), parseDigits]

theorem parseDigits_two : parseDigits 0 [c, d] =
    match (digit? c).bind fun hi => (digit? d).map fun lo => hi * 16 + lo with
    | none   => .error .invalidDigit
    | some n => .ok (.ofNat n) := by
  rw [parseDigits]
  cases h : digit? c
  case none => rfl
  case some hi =>
    have hh := digit?_lt h
    simp only [Nat.zero_mul, Nat.zero_add]
    rw [if_pos (by omega), parseDigits]
    cases h' : digit? d
    case none => rfl
    case some lo =>
      have := digit?_lt h'
      simp only [Option.bind_some, Option.map_some]
      rw [if_pos (by omega), parseDigits]

theorem fromStrRadix_pair : fromStrRadix [c, d] =
    match pair? c d with
    | none   => .error .invalidDigit
    | some b => .ok b := by
  by_cases h : c = '+'
  case pos =>
    subst h
    change parseDigits 0 [d] = _
    rw [parseDigits_one, pair?, if_pos rfl]
    cases digit? d <;> rfl
  case neg =>
    have hc : fromStrRadix [c, d] = parseDigits 0 [c, d] := by
      rw [fromStrRadix] <;> simp [h]
    rw [hc, parseDigits_two, pair?, if_neg h]
    cases digit? c <;> cases digit? d <;> rfl

theorem utf8Size_of_pair? (h : pair? c d = some b) : c.utf8Size = 1 ∧ d.utf8Size = 1 := by
  rw [pair?] at h
  split at h
  case isTrue hc =>
    have ⟨_, hd, _⟩ := Option.map_eq_some_iff.mp h
    exact ⟨hc ▸ rfl, utf8Size_of_digit? hd⟩
  case isFalse =>
    have ⟨_, hc, h⟩ := Option.bind_eq_some_iff.mp h
    have ⟨_, hd, _⟩ := Option.map_eq_some_iff.mp h
    exact ⟨utf8Size_of_digit? hc, utf8Size_of_digit? hd⟩

theorem fromStrRadix_wide (h : c.utf8Size = 2) : fromStrRadix [c] = .error .invalidDigit := by
  have hp : c ≠ '+' := by
    rintro rfl
    cases h
  have hm : c ≠ '-' := by
    rintro rfl
    cases h
  have hd : digit? c = none := by
    by_contra hd
    have ⟨n, hn⟩ := Option.ne_none_iff_exists'.mp hd
    exact absurd (utf8Size_of_digit? hn) (by omega)
  have hc : fromStrRadix [c] = parseDigits 0 [c] := by
    rw [fromStrRadix] <;> simp [hp, hm]
  rw [hc, parseDigits_one, hd]

-- The two bytes behind some characters.
theorem slice_behind : Slices.slice (utf8Len read) (utf8Len read + n) (read ++ rest) =
    Slices.sliceTo n rest := by
  have h : ∀ read, Slices.sliceTo (utf8Len read + n) (read ++ rest) =
      (Slices.sliceTo n rest).map (read ++ ·) := by
    intro read
    induction read
    case nil => simp
    case cons c read hi =>
      have hc := c.utf8Size_pos
      have he : utf8Len (c :: read) + n = utf8Len read + n + c.utf8Size - 1 + 1 := by
        rw [String.utf8Len_cons]
        omega
      rw [he, List.cons_append, Slices.sliceTo, if_pos (by omega)]
      rw [show utf8Len read + n + c.utf8Size - 1 + 1 - c.utf8Size = utf8Len read + n by omega, hi,
        Option.map_map]
      rfl
  rw [Slices.slice, if_pos (Nat.le_add_right _ _), h, Option.bind_map]
  cases Slices.sliceTo n rest
  case none => rfl
  case some => exact Slices.sliceFrom_append

theorem sliceTo_pair (hc : c.utf8Size = 1) (hd : d.utf8Size = 1) :
    Slices.sliceTo 2 (c :: d :: rest) = some [c, d] := by
  simp [Slices.sliceTo, hc, hd]

theorem sliceTo_wide (hc : c.utf8Size = 2) : Slices.sliceTo 2 (c :: rest) = some [c] := by
  simp [Slices.sliceTo, hc]

theorem Cut.sliceTo (h : Cut rest) : Slices.sliceTo 2 rest = none := by
  cases h
  case first hc =>
    rw [Slices.sliceTo, if_neg (by omega)]
  case second hc hd =>
    rw [Slices.sliceTo, if_pos (by omega), hc]
    change (Slices.sliceTo 1 _).map _ = none
    rw [Slices.sliceTo, if_neg (by omega)]
    rfl

-- A text goes on with pairs that are read up to its end, to one that isn't, or to one that's cut.
theorem exists_pairs : ∀ {rest}, utf8Len rest % 2 = 0 →
    ∃ read bs tail, rest = read ++ tail ∧ Pairs read bs ∧ (tail = [] ∨ Stops tail ∨ Cut tail)
  | [], _ => ⟨[], [], [], rfl, .nil, .inl rfl⟩
  | [c], h => by
    refine ⟨[], [], [c], rfl, .nil, .inr ?_⟩
    have hc := c.utf8Size_pos
    rw [String.utf8Len_cons, String.utf8Len_nil] at h
    by_cases h₂ : c.utf8Size = 2
    case pos => exact .inl (.wide h₂)
    case neg => exact .inr (.first (by omega))
  | c :: d :: rest, h => by
    have hc := c.utf8Size_pos
    have hd := d.utf8Size_pos
    by_cases h₁ : c.utf8Size = 1
    case neg =>
      refine ⟨[], [], c :: d :: rest, rfl, .nil, .inr ?_⟩
      by_cases h₂ : c.utf8Size = 2
      case pos => exact .inl (.wide h₂)
      case neg => exact .inr (.first (by omega))
    case pos =>
      by_cases h₂ : d.utf8Size = 1
      case neg => exact ⟨[], [], _, rfl, .nil, .inr (.inr (.second h₁ (by omega)))⟩
      case pos =>
        cases hp : pair? c d
        case none => exact ⟨[], [], _, rfl, .nil, .inr (.inl (.pair h₁ h₂ hp))⟩
        case some b =>
          have hl : utf8Len rest % 2 = 0 := by
            rw [String.utf8Len_cons, String.utf8Len_cons] at h
            omega
          have ⟨read, bs, tail, hr, hb, ht⟩ := exists_pairs hl
          exact ⟨c :: d :: read, b :: bs, tail, by rw [hr]; rfl, .cons hp hb, ht⟩

-- What the reader makes of the pairs from some offset on.
def decodeFrom (hex : List Char) (k m : Nat) : Outcome HexError (List UInt8) :=
  decodeAt hex ((List.range' k m).map (2 * ·))

theorem decodeFrom_pair (hr : utf8Len read = 2 * k) (hp : pair? c d = some b) :
    decodeFrom (read ++ c :: d :: rest) k (m + 1) =
      (b :: ·) <$> decodeFrom (read ++ c :: d :: rest) (k + 1) m := by
  have ⟨hc, hd⟩ := utf8Size_of_pair? hp
  have hs : Slices.slice (2 * k) (2 * k + 2) (read ++ c :: d :: rest) = some [c, d] := by
    rw [← hr, slice_behind, sliceTo_pair hc hd]
  rw [decodeFrom, List.range'_succ, List.map_cons, decodeAt, hs, map_eq_pure_bind]
  change (match fromStrRadix [c, d] with | .error e => _ | .ok b => _) = _
  rw [fromStrRadix_pair, hp]
  rfl

theorem Pairs.utf8Len (h : Pairs read bs) : String.utf8Len read = 2 * bs.length := by
  induction h
  case nil => rfl
  case cons hp _ hi =>
    have ⟨hc, hd⟩ := utf8Size_of_pair? hp
    rw [String.utf8Len_cons, String.utf8Len_cons, hi, List.length_cons]
    omega

theorem decodeFrom_pairs (h : Pairs rest bs) : ∀ {read k}, String.utf8Len read = 2 * k →
    decodeFrom (read ++ (rest ++ tail)) k (bs.length + m) =
      (bs ++ ·) <$> decodeFrom (read ++ (rest ++ tail)) (k + bs.length) m := by
  induction h
  case nil =>
    intro read k _
    rw [List.length_nil, Nat.zero_add, Nat.add_zero]
    exact (id_map _).symm
  case cons c d b rest bs hp _ hi =>
    intro read k hr
    have ⟨hc, hd⟩ := utf8Size_of_pair? hp
    have hr' : String.utf8Len (read ++ [c, d]) = 2 * (k + 1) := by
      simp only [String.utf8Len_append, String.utf8Len_cons, String.utf8Len_nil]
      omega
    have hs : read ++ (c :: d :: rest ++ tail) = (read ++ [c, d]) ++ (rest ++ tail) := by simp
    have hm : (b :: bs).length + m = (bs.length + m) + 1 := by
      rw [List.length_cons]
      omega
    have hk : k + (b :: bs).length = k + 1 + bs.length := by
      rw [List.length_cons]
      omega
    rw [hm, List.cons_append, List.cons_append, decodeFrom_pair hr hp, ← List.cons_append,
      ← List.cons_append, hs, hi hr', hk, ← comp_map]
    rfl

theorem decodeFrom_cut (hr : utf8Len read = 2 * k) (h : Cut tail) :
    decodeFrom (read ++ tail) k (m + 1) = none := by
  have hs : Slices.slice (2 * k) (2 * k + 2) (read ++ tail) = none := by
    rw [← hr, slice_behind, h.sliceTo]
  rw [decodeFrom, List.range'_succ, List.map_cons, decodeAt, hs]
  rfl

theorem decodeFrom_stops (hr : utf8Len read = 2 * k) (h : Stops tail) :
    ∃ e, decodeFrom (read ++ tail) k (m + 1) = some (.error e) := by
  have hs : ∃ pair e, Slices.slice (2 * k) (2 * k + 2) (read ++ tail) = some pair ∧
      fromStrRadix pair = .error e := by
    rw [← hr, slice_behind]
    cases h
    case wide hc => exact ⟨_, _, sliceTo_wide hc, fromStrRadix_wide hc⟩
    case pair hc hd hp =>
      refine ⟨_, .invalidDigit, sliceTo_pair hc hd, ?_⟩
      rw [fromStrRadix_pair, hp]
  have ⟨pair, e, hs, he⟩ := hs
  refine ⟨.invalidByte pair e, ?_⟩
  rw [decodeFrom, List.range'_succ, List.map_cons, decodeAt, hs]
  change (match fromStrRadix pair with | .error e => _ | .ok b => _) = _
  rw [he]
  rfl

-- What is left when the reader stops isn't empty.
theorem utf8Len_pos_of_stops (h : Stops tail ∨ Cut tail) : 0 < utf8Len tail := by
  obtain (⟨_⟩ | ⟨_⟩) | (⟨_⟩ | ⟨_⟩) := h
  all_goals
    rw [String.utf8Len_cons]
    have := Char.utf8Size_pos
    omega

theorem decode_pairs {s : String} (h : Text.len s % 2 = 0) (hs : s.toList = read ++ tail)
    (hb : Pairs read bs) :
    decode s = (bs ++ ·) <$> decodeFrom (read ++ tail) bs.length (utf8Len tail / 2) := by
  have hl : utf8Len s.toList = Text.len s := String.utf8Len_toList s
  have hr := hb.utf8Len
  rw [hs, String.utf8Len_append] at hl
  have hn : Text.len s / 2 = bs.length + utf8Len tail / 2 := by omega
  have hd : decode s = decodeFrom ([] ++ (read ++ tail)) 0 (Text.len s / 2) := by
    rw [decode, if_neg (by omega), hs, decodeFrom, List.range_eq_range']
    rfl
  rw [hd, hn, decodeFrom_pairs hb rfl, List.nil_append, Nat.zero_add]

theorem Pairs.even (h : Pairs s.toList bs) : Text.len s % 2 = 0 := by
  have hl : String.utf8Len s.toList = Text.len s := String.utf8Len_toList s
  rw [← hl, h.utf8Len, Nat.mul_mod_right]

theorem decode_of_pairs (h : Pairs s.toList bs) : decode s = some (.ok bs) := by
  rw [decode_pairs h.even (List.append_nil _).symm h]
  exact congrArg (fun l => some (Except.ok l)) (List.append_nil bs)

theorem decode_of_cut (he : Text.len s % 2 = 0) (hs : s.toList = read ++ tail) (hb : Pairs read bs)
    (ht : Cut tail) : decode s = none := by
  have hl : utf8Len s.toList = Text.len s := String.utf8Len_toList s
  have hr := hb.utf8Len
  have hp := utf8Len_pos_of_stops (.inr ht)
  rw [hs, String.utf8Len_append] at hl
  have hn : utf8Len tail / 2 = (utf8Len tail - 2) / 2 + 1 := by omega
  rw [decode_pairs he hs hb, hn, decodeFrom_cut hr ht]
  rfl

theorem decode_of_stops (he : Text.len s % 2 = 0) (hs : s.toList = read ++ tail)
    (hb : Pairs read bs) (ht : Stops tail) : ∃ e, decode s = some (.error e) := by
  have hl : utf8Len s.toList = Text.len s := String.utf8Len_toList s
  have hr := hb.utf8Len
  have hp := utf8Len_pos_of_stops (.inl ht)
  rw [hs, String.utf8Len_append] at hl
  have hn : utf8Len tail / 2 = (utf8Len tail - 2) / 2 + 1 := by omega
  have ⟨e, hd⟩ := decodeFrom_stops (m := (utf8Len tail - 2) / 2) hr ht
  rw [decode_pairs he hs hb, hn, hd]
  exact ⟨e, rfl⟩

theorem decode_of_odd (h : Text.len s % 2 ≠ 0) : decode s = some (.error .oddLength) := by
  rw [decode, if_pos h]
  rfl

-- A text whose bytes are cut within a character before anything else is wrong with it.
def Splits (s : String) : Prop :=
  Text.len s % 2 = 0 ∧ ∃ read bs tail, s.toList = read ++ tail ∧ Pairs read bs ∧ Cut tail

theorem decode_of_splits (h : Splits s) : decode s = none := by
  have ⟨he, _, _, _, hs, hb, ht⟩ := h
  exact decode_of_cut he hs hb ht

-- There are three kinds of texts.
theorem pairs_or_refused_or_splits (s : String) :
    (∃ bs, Pairs s.toList bs) ∨ (∃ e, decode s = some (.error e)) ∨ Splits s := by
  by_cases he : Text.len s % 2 = 0
  case neg => exact .inr (.inl ⟨_, decode_of_odd he⟩)
  case pos =>
    have hl : utf8Len s.toList % 2 = 0 := by
      rw [String.utf8Len_toList]
      exact he
    have ⟨read, bs, tail, hs, hb, ht⟩ := exists_pairs hl
    obtain ht | ht | ht := ht
    case inl =>
      rw [ht, List.append_nil] at hs
      exact .inl ⟨bs, hs ▸ hb⟩
    case inr.inl => exact .inr (.inl (decode_of_stops he hs hb ht))
    case inr.inr => exact .inr (.inr ⟨he, read, bs, tail, hs, hb, ht⟩)

-- A text of pairs is what's read.
theorem decode_eq_ok : decode s = some (.ok bs) ↔ Pairs s.toList bs := by
  constructor
  case mp =>
    intro h
    obtain ⟨bs', hb⟩ | ⟨e, he⟩ | hs := pairs_or_refused_or_splits s
    case inl =>
      cases (decode_of_pairs hb).symm.trans h
      exact hb
    case inr.inl => cases he.symm.trans h
    case inr.inr => cases (decode_of_splits hs).symm.trans h
  case mpr => exact decode_of_pairs

theorem decode_eq_none : decode s = none ↔ Splits s := by
  constructor
  case mp =>
    intro h
    obtain ⟨bs', hb⟩ | ⟨e, he⟩ | hs := pairs_or_refused_or_splits s
    case inl => cases (decode_of_pairs hb).symm.trans h
    case inr.inl => cases he.symm.trans h
    case inr.inr => exact hs
  case mpr => exact decode_of_splits

-- A hexadecimal digit.
def isDigit (c : Char) : Bool := (digit? c).isSome

-- A text of an even number of hexadecimal digits.
def HexText (s : String) : Prop := Text.len s % 2 = 0 ∧ ∀ c ∈ s.toList, isDigit c

def lower (s : String) : String := .ofList (s.toList.map Text.lowerAscii)

theorem pair?_of_digits (hc : isDigit c) (hd : isDigit d) : ∃ b, pair? c d = some b := by
  have ⟨hi, hc'⟩ := Option.isSome_iff_exists.mp hc
  have ⟨lo, hd'⟩ := Option.isSome_iff_exists.mp hd
  have hp : c ≠ '+' := by
    rintro rfl
    cases hc'
  exact ⟨.ofNat (hi * 16 + lo), by rw [pair?, if_neg hp, hc', hd']; rfl⟩

theorem exists_pairs_of_digits : ∀ {cs : List Char}, cs.length % 2 = 0 → (∀ c ∈ cs, isDigit c) →
    ∃ bs, Pairs cs bs
  | [], _, _ => ⟨[], .nil⟩
  | [_], h, _ => by cases h
  | c :: d :: cs, h, hd => by
    have ⟨b, hb⟩ := pair?_of_digits (hd c (by simp)) (hd d (by simp))
    have hl : cs.length % 2 = 0 := by
      rw [List.length_cons, List.length_cons] at h
      omega
    have ⟨bs, hbs⟩ := exists_pairs_of_digits hl fun e he => hd e (by simp [he])
    exact ⟨b :: bs, .cons hb hbs⟩

-- What's read besides is a sign where a digit should be.
theorem isDigit_of_pair? (h : pair? c d = some b) : (c = '+' ∨ isDigit c) ∧ isDigit d := by
  rw [pair?] at h
  split at h
  case isTrue hc =>
    have ⟨_, hd, _⟩ := Option.map_eq_some_iff.mp h
    exact ⟨.inl hc, Option.isSome_iff_exists.mpr ⟨_, hd⟩⟩
  case isFalse =>
    have ⟨_, hc, h⟩ := Option.bind_eq_some_iff.mp h
    have ⟨_, hd, _⟩ := Option.map_eq_some_iff.mp h
    exact ⟨.inr (Option.isSome_iff_exists.mpr ⟨_, hc⟩), Option.isSome_iff_exists.mpr ⟨_, hd⟩⟩

theorem Pairs.digits (h : Pairs cs bs) : (∀ c ∈ cs, isDigit c) ↔ '+' ∉ cs := by
  constructor
  case mp =>
    intro hd hp
    cases hd _ hp
  case mpr =>
    intro hp
    induction h
    case nil => simp
    case cons hb _ hi =>
      have ⟨hc, hd⟩ := isDigit_of_pair? hb
      simp only [List.mem_cons, not_or] at hp
      simp only [List.forall_mem_cons]
      exact ⟨hc.resolve_left (Ne.symm hp.1), hd, hi hp.2.2⟩

theorem utf8Len_of_digits : ∀ {cs : List Char}, (∀ c ∈ cs, isDigit c) → utf8Len cs = cs.length
  | [], _ => rfl
  | c :: cs, h => by
    have ⟨_, hc⟩ := Option.isSome_iff_exists.mp (h c (by simp))
    rw [String.utf8Len_cons, utf8Size_of_digit? hc, List.length_cons,
      utf8Len_of_digits fun d hd => h d (by simp [hd])]

-- Hexadecimal texts are read, and are all that's read of texts without a sign.
theorem exists_decode_of_hexText (h : HexText s) : ∃ bs, decode s = some (.ok bs) := by
  have hl : s.toList.length % 2 = 0 := by
    rw [← utf8Len_of_digits h.2, String.utf8Len_toList]
    exact h.1
  have ⟨bs, hb⟩ := exists_pairs_of_digits hl h.2
  exact ⟨bs, decode_of_pairs hb⟩

theorem hexText_iff (h : decode s = some (.ok bs)) : HexText s ↔ '+' ∉ s.toList := by
  have hb := decode_eq_ok.mp h
  rw [HexText, hb.digits, and_iff_right hb.even]

theorem lowerAscii_digit (h : digit? c = some n) : hexDigit n = Text.lowerAscii c := by
  have hA : 'A'.toNat = 65 := rfl
  have hZ : 'Z'.toNat = 90 := rfl
  rw [hexDigit, Text.lowerAscii]
  simp only [le_iff_toNat, hA, hZ, Bool.and_eq_true, decide_eq_true_eq]
  obtain h | h | h := digit?_eq_some.mp h
  case inl =>
    rw [if_pos (by omega), if_neg (by omega), show 48 + n = c.toNat by omega, Char.ofNat_toNat]
  case inr.inl =>
    rw [if_neg (by omega), if_neg (by omega), show 87 + n = c.toNat by omega, Char.ofNat_toNat]
  case inr.inr =>
    rw [if_neg (by omega), if_pos (by omega), show 87 + n = c.toNat + 32 by omega]

theorem encode_cons {bs : List UInt8} : (encode (b :: bs)).toList =
    hexDigit (b.toNat / 16) :: hexDigit (b.toNat % 16) :: (encode bs).toList := by
  simp [encode]

theorem hexDigit_ne (hn : n < 16) (h : isDigit c = false) : hexDigit n ≠ c := by
  have hd : ∀ m : Fin 16, isDigit (hexDigit m) := by decide
  rintro rfl
  cases h.symm.trans (hd ⟨n, hn⟩)

theorem not_mem_encode (h : isDigit c = false) : c ∉ (encode bs).toList := by
  induction bs
  case nil => simp [encode]
  case cons b bs hi =>
    have hb := b.toNat_lt
    rw [encode_cons]
    simp only [List.mem_cons, not_or]
    exact ⟨(hexDigit_ne (by omega) h).symm, (hexDigit_ne (by omega) h).symm, hi⟩

theorem encode_pairs (h : Pairs cs bs) (hp : '+' ∉ cs) :
    (encode bs).toList = cs.map Text.lowerAscii := by
  induction h
  case nil => simp [encode]
  case cons c d b cs bs hb _ hi =>
    simp only [List.mem_cons, not_or] at hp
    rw [pair?, if_neg (Ne.symm hp.1)] at hb
    have ⟨hi', hc, hb⟩ := Option.bind_eq_some_iff.mp hb
    have ⟨lo, hd, hb⟩ := Option.map_eq_some_iff.mp hb
    have h₁ := digit?_lt hc
    have h₂ := digit?_lt hd
    have hn : b.toNat = hi' * 16 + lo := by
      rw [← hb, Utf8.toNat_ofNat (by omega)]
    rw [encode_cons, hn, hi hp.2.2, show (hi' * 16 + lo) / 16 = hi' by omega,
      show (hi' * 16 + lo) % 16 = lo by omega, lowerAscii_digit hc, lowerAscii_digit hd]
    rfl

-- What's read is written the same way in lower case, unless there was a sign.
theorem encode_eq_lower (h : decode s = some (.ok bs)) : encode bs = lower s ↔ '+' ∉ s.toList := by
  have hb := decode_eq_ok.mp h
  constructor
  case mp =>
    intro he hp
    have hl : '+' ∈ (lower s).toList := by
      rw [lower, String.toList_ofList]
      exact List.mem_map.mpr ⟨'+', hp, rfl⟩
    rw [← he] at hl
    exact not_mem_encode (by decide) hl
  case mpr =>
    intro hp
    rw [← String.toList_inj, encode_pairs hb hp, lower, String.toList_ofList]

theorem decode_encode (bs : List UInt8) : decode (encode bs) = some (.ok bs) := by
  have hd : ∀ m : Fin 16, digit? (hexDigit m) = some m.val := by decide
  have hp : ∀ m : Fin 16, hexDigit m ≠ '+' := by decide
  refine decode_of_pairs ?_
  induction bs
  case nil =>
    rw [encode, String.toList_ofList]
    exact .nil
  case cons b bs hi =>
    have hb := b.toNat_lt
    have h₁ := hd ⟨b.toNat / 16, by omega⟩
    have h₂ := hd ⟨b.toNat % 16, by omega⟩
    rw [encode_cons]
    refine .cons ?_ hi
    rw [pair?, if_neg (hp ⟨b.toNat / 16, by omega⟩), h₁, h₂, Option.bind_some, Option.map_some,
      Nat.div_add_mod', UInt8.ofNat_toNat]

end Hex

open Hex (Pairs Splits HexText)

variable {s : String} {bs : List UInt8}

theorem outcome_cases {ε α : Type} (x : Outcome ε α) :
    x = none ∨ (∃ e, x = some (.error e)) ∨ ∃ a, x = some (.ok a) := by
  rcases x with _ | e | a
  · exact .inl rfl
  · exact .inr (.inl ⟨e, rfl⟩)
  · exact .inr (.inr ⟨a, rfl⟩)

theorem hexDecoded_eq_ok : hexDecoded s = some (.ok bs) ↔ Hex.decode s = some (.ok bs) := by
  rw [hexDecoded]
  obtain h | ⟨e, h⟩ | ⟨a, h⟩ := outcome_cases (Hex.decode s)
  all_goals rw [h]
  case inl => exact ⟨nofun, nofun⟩
  case inr.inl => exact ⟨nofun, nofun⟩
  case inr.inr =>
    constructor
    all_goals
      intro h
      cases h
      rfl

theorem hexDecoded_eq_none : hexDecoded s = none ↔ Splits s := by
  rw [← Hex.decode_eq_none, hexDecoded]
  obtain h | ⟨e, h⟩ | ⟨a, h⟩ := outcome_cases (Hex.decode s)
  all_goals rw [h]
  case inl => exact ⟨fun _ => rfl, fun _ => rfl⟩
  case inr.inl => exact ⟨nofun, nofun⟩
  case inr.inr => exact ⟨nofun, nofun⟩

-- Both steps of a call panic if its outcome is nothing, and both succeed if it's a value.
theorem bind_eq_none {ε α β : Type} {x : Outcome ε α} {f : α → Outcome ε β} :
    x >>= f = none ↔ x = none ∨ ∃ a, x = some (.ok a) ∧ f a = none := by
  obtain rfl | ⟨e, rfl⟩ | ⟨a, rfl⟩ := outcome_cases x
  case inl => exact ⟨fun _ => .inl rfl, fun _ => rfl⟩
  case inr.inl =>
    constructor
    case mp => nofun
    case mpr =>
      rintro (h | ⟨_, h, _⟩)
      case inl => cases h
      case inr => cases h
  case inr.inr =>
    constructor
    case mp => exact fun h => .inr ⟨a, rfl, h⟩
    case mpr =>
      rintro (h | ⟨_, h, hf⟩)
      case inl => cases h
      case inr =>
        cases h
        exact hf

theorem bind_eq_ok {ε α β : Type} {x : Outcome ε α} {f : α → Outcome ε β} {b : β} :
    x >>= f = some (.ok b) ↔ ∃ a, x = some (.ok a) ∧ f a = some (.ok b) := by
  obtain rfl | ⟨e, rfl⟩ | ⟨a, rfl⟩ := outcome_cases x
  case inl => exact ⟨nofun, fun ⟨_, h, _⟩ => by cases h⟩
  case inr.inl => exact ⟨nofun, fun ⟨_, h, _⟩ => by cases h⟩
  case inr.inr =>
    constructor
    case mp => exact fun h => ⟨a, rfl, h⟩
    case mpr =>
      rintro ⟨_, h, hf⟩
      cases h
      exact hf

theorem map_eq_ok {ε α β : Type} {x : Outcome ε α} {f : α → β} :
    (∃ b, f <$> x = some (.ok b)) ↔ ∃ a, x = some (.ok a) := by
  obtain rfl | ⟨e, rfl⟩ | ⟨a, rfl⟩ := outcome_cases x
  case inl => exact ⟨fun ⟨_, h⟩ => (nomatch h), fun ⟨_, h⟩ => (nomatch h)⟩
  case inr.inl => exact ⟨fun ⟨_, h⟩ => (nomatch h), fun ⟨_, h⟩ => (nomatch h)⟩
  case inr.inr => exact ⟨fun _ => ⟨a, rfl⟩, fun _ => ⟨f a, rfl⟩⟩

theorem map_eq_error {ε α β : Type} {x : Outcome ε α} {f : α → β} :
    (∃ e, f <$> x = some (.error e)) ↔ ∃ e, x = some (.error e) := by
  obtain rfl | ⟨e, rfl⟩ | ⟨a, rfl⟩ := outcome_cases x
  case inl => exact ⟨fun ⟨_, h⟩ => (nomatch h), fun ⟨_, h⟩ => (nomatch h)⟩
  case inr.inl => exact ⟨fun _ => ⟨e, rfl⟩, fun _ => ⟨e, rfl⟩⟩
  case inr.inr => exact ⟨fun ⟨_, h⟩ => (nomatch h), fun ⟨_, h⟩ => (nomatch h)⟩

theorem MasterKek.fromHex_eq_none : MasterKek.fromHex s = none ↔ Splits (Text.trim s) := by
  rw [MasterKek.fromHex, bind_eq_none, hexDecoded_eq_none]
  refine or_iff_left ?_
  rintro ⟨bs, -, h⟩
  split at h <;> cases h

theorem parts_toList : (parts s).map String.toList = Text.splitAt ':' s.toList := by
  simp [parts, Function.comp_def]

theorem version_toList : "v1".toList = ['v', '1'] := String.toList_ofList

-- A stored key of this form panics when it's read.
def Torn (s : String) : Prop :=
  ∃ nonce payload, parts s = ["v1", nonce, payload] ∧
    (Splits nonce ∨ (∃ bs, Pairs nonce.toList bs ∧ bs.length = nonceLen) ∧ Splits payload)

section

variable [Aead] {kek : MasterKek} {text : String}

-- What's read of a stored key of the right form.
def MasterKek.decryptParts (kek : MasterKek) (nonce payload : String) :
    Outcome CryptoError String := do
  let nonce ← hexDecoded nonce
  if h : nonce.length = nonceLen then do
    let payload ← hexDecoded payload
    match (Aead.opened kek ⟨nonce.toArray, h⟩ payload).map Utf8.fromUtf8 with
    | some (text, []) => return .ofList text
    | _               => throw .decryptionError
  else throw .invalidCiphertextFormat

theorem MasterKek.decrypt_of_parts {nonce payload : String} (h : parts s = ["v1", nonce, payload]) :
    kek.decrypt s = kek.decryptParts nonce payload := by
  rw [MasterKek.decrypt, h]
  exact if_neg (not_not.mpr rfl)

theorem MasterKek.decrypt_of_ne (h : ∀ nonce payload, parts s ≠ ["v1", nonce, payload]) :
    kek.decrypt s = some (.error .invalidCiphertextFormat) := by
  rw [MasterKek.decrypt]
  split
  case h_1 version nonce payload hp =>
    have hv : version ≠ "v1" := by
      rintro rfl
      exact h _ _ hp
    exact if_pos hv
  case h_2 => rfl

theorem MasterKek.decryptParts_eq_none {nonce payload : String} :
    kek.decryptParts nonce payload = none ↔
      Splits nonce ∨ (∃ bs, Pairs nonce.toList bs ∧ bs.length = nonceLen) ∧ Splits payload := by
  rw [MasterKek.decryptParts, bind_eq_none, hexDecoded_eq_none]
  refine or_congr_right ?_
  constructor
  case mp =>
    rintro ⟨bs, hn, h⟩
    have hb := Hex.decode_eq_ok.mp (hexDecoded_eq_ok.mp hn)
    split at h
    case isFalse => cases h
    case isTrue hl =>
      refine ⟨⟨bs, hb, hl⟩, ?_⟩
      obtain h | ⟨_, _, h⟩ := bind_eq_none.mp h
      case inl => exact hexDecoded_eq_none.mp h
      case inr => split at h <;> cases h
  case mpr =>
    rintro ⟨⟨bs, hb, hl⟩, hs⟩
    refine ⟨bs, hexDecoded_eq_ok.mpr (Hex.decode_of_pairs hb), ?_⟩
    rw [dif_pos hl, hexDecoded_eq_none.mpr hs]
    rfl

theorem MasterKek.decryptParts_eq_ok {nonce payload : String} :
    kek.decryptParts nonce payload = some (.ok text) ↔
      ∃ n : Nonce, Hex.decode nonce = some (.ok n.toList) ∧
        ∃ bytes, Hex.decode payload = some (.ok bytes) ∧
          Aead.opened kek n bytes = some text.utf8 := by
  rw [MasterKek.decryptParts, bind_eq_ok]
  constructor
  case mp =>
    rintro ⟨bs, hn, h⟩
    split at h
    case isFalse => cases h
    case isTrue hl =>
      have ⟨bytes, hb, h⟩ := bind_eq_ok.mp h
      refine ⟨⟨bs.toArray, hl⟩, hexDecoded_eq_ok.mp hn, bytes, hexDecoded_eq_ok.mp hb, ?_⟩
      split at h
      case h_2 => cases h
      case h_1 cs ho =>
        cases h
        have ⟨plain, ho, hu⟩ := Option.map_eq_some_iff.mp ho
        have hp := Utf8.encode_fromUtf8 plain
        rw [hu, List.append_nil] at hp
        rw [ho, ← hp, String.utf8, String.toList_ofList]
  case mpr =>
    rintro ⟨n, hn, bytes, hb, ho⟩
    have hl : n.toList.length = nonceLen := Vector.length_toList
    have hv : (⟨n.toList.toArray, hl⟩ : Nonce) = n := Vector.toList_inj.mp (by simp)
    have hu : Utf8.fromUtf8 text.utf8 = (text.toList, []) := by
      have h : Utf8.fromUtf8 (text.utf8 ++ []) = _ := Utf8.fromUtf8_eq Utf8.decodeChar?_nil
      rwa [List.append_nil] at h
    refine ⟨n.toList, hexDecoded_eq_ok.mpr hn, ?_⟩
    rw [dif_pos hl]
    refine bind_eq_ok.mpr ⟨bytes, hexDecoded_eq_ok.mpr hb, ?_⟩
    rw [hv, ho, Option.map_some, hu]
    change some (Except.ok (String.ofList text.toList)) = _
    rw [String.ofList_toList]

theorem MasterKek.decrypt_eq_none : kek.decrypt s = none ↔ Torn s := by
  constructor
  case mp =>
    intro h
    by_contra ht
    by_cases hp : ∃ nonce payload, parts s = ["v1", nonce, payload]
    case pos =>
      have ⟨nonce, payload, hp⟩ := hp
      rw [decrypt_of_parts hp] at h
      exact ht ⟨nonce, payload, hp, decryptParts_eq_none.mp h⟩
    case neg =>
      push Not at hp
      cases (decrypt_of_ne hp).symm.trans h
  case mpr =>
    rintro ⟨nonce, payload, hp, h⟩
    rw [decrypt_of_parts hp]
    exact decryptParts_eq_none.mpr h

theorem MasterKek.decrypt_eq_ok : kek.decrypt s = some (.ok text) ↔
    ∃ nonce payload, parts s = ["v1", nonce, payload] ∧
      kek.decryptParts nonce payload = some (.ok text) := by
  constructor
  case mp =>
    intro h
    by_cases hp : ∃ nonce payload, parts s = ["v1", nonce, payload]
    case pos =>
      have ⟨nonce, payload, hp⟩ := hp
      exact ⟨nonce, payload, hp, decrypt_of_parts hp ▸ h⟩
    case neg =>
      push Not at hp
      cases (decrypt_of_ne hp).symm.trans h
  case mpr =>
    rintro ⟨nonce, payload, hp, h⟩
    rw [decrypt_of_parts hp, h]

-- The parts of what's read are hexadecimal texts unless there's a sign in it.
theorem MasterKek.hexText_of_decrypt (h : kek.decrypt s = some (.ok text)) :
    ∃ nonce payload, parts s = ["v1", nonce, payload] ∧
      (HexText nonce ∧ HexText payload ↔ '+' ∉ s.toList) := by
  have ⟨nonce, payload, hp, h⟩ := decrypt_eq_ok.mp h
  have ⟨n, hn, bytes, hb, _⟩ := decryptParts_eq_ok.mp h
  refine ⟨nonce, payload, hp, ?_⟩
  have hs : Text.splitAt ':' s.toList = [['v', '1'], nonce.toList, payload.toList] := by
    rw [← parts_toList, hp, List.map_cons, version_toList]
    rfl
  rw [Hex.hexText_iff hn, Hex.hexText_iff hb,
    @Text.mem_iff_mem_splitAt ':' '+' s.toList (by decide), hs]
  simp

-- What's stored is read again.
theorem MasterKek.decrypt_encrypt {nonce : Option Nonce} (h : kek.encrypt nonce text = .ok s) :
    kek.decrypt s = some (.ok text) := by
  rw [MasterKek.encrypt] at h
  split at h
  case h_1 => cases h
  case h_2 n payload hn =>
    cases h
    have ⟨n', _, hn⟩ := Option.bind_eq_some_iff.mp hn
    have ⟨sealed, hs, hp⟩ := Option.map_eq_some_iff.mp hn
    cases hp
    have hd : Hex.isDigit ':' = false := by decide
    refine decrypt_eq_ok.mpr ⟨Hex.encode n.toList, Hex.encode payload, ?_, ?_⟩
    case refine_1 =>
      have hv : ("v1:" ++ Hex.encode n.toList ++ ":" ++ Hex.encode payload).toList =
          ['v', '1'] ++
            ':' :: ((Hex.encode n.toList).toList ++ ':' :: (Hex.encode payload).toList) := by
        simp
      rw [parts, hv, Text.splitAt_append (by decide), Text.splitAt_append (Hex.not_mem_encode hd),
        Text.splitAt_of_not_mem (Hex.not_mem_encode hd)]
      simp only [List.map_cons, List.map_nil, String.ofList_toList]
    case refine_2 =>
      exact decryptParts_eq_ok.mpr
        ⟨n, Hex.decode_encode _, payload, Hex.decode_encode _, Aead.opened_sealed hs⟩

variable {old new : MasterKek} {nonce : Option Nonce} {nonces : Nat → Option Nonce}
  {key rotated : String} {keys left : List String} {e : CryptoError}

-- A key that's moved is under the new master key what it was under the old one.
theorem rotateProviderKey_eq_ok (h : rotateProviderKey old new nonce key = some (.ok rotated)) :
    ∃ text, old.decrypt key = some (.ok text) ∧ new.decrypt rotated = some (.ok text) := by
  have ⟨text, hd, he⟩ := bind_eq_ok.mp h
  exact ⟨text, hd, MasterKek.decrypt_encrypt (Option.some.inj he)⟩

-- Two keys that are the same text under two master keys.
def SameKey (old new : MasterKek) (key rotated : String) : Prop :=
  ∃ text, old.decrypt key = some (.ok text) ∧ new.decrypt rotated = some (.ok text)

-- Every key can be moved.
def Rotates (old new : MasterKek) (nonces : Nat → Option Nonce) (keys : List String) : Prop :=
  ∀ i key, keys[i]? = some key →
    ∃ rotated, rotateProviderKey old new (nonces i) key = some (.ok rotated)

-- There's a key that's refused, and moving any before it leaves it as it is.
def RefusedAtOnce (old new : MasterKek) (nonces : Nat → Option Nonce) (keys : List String) : Prop :=
  ∃ k refused e, keys[k]? = some refused ∧
    rotateProviderKey old new (nonces k) refused = some (.error e) ∧
    ∀ i key, i < k → keys[i]? = some key → rotateProviderKey old new (nonces i) key = some (.ok key)

theorem rotates_cons : Rotates old new nonces (key :: keys) ↔
    (∃ rotated, rotateProviderKey old new (nonces 0) key = some (.ok rotated)) ∧
      Rotates old new (fun n => nonces (n + 1)) keys := by
  constructor
  case mp => exact fun h => ⟨h 0 key rfl, fun i => h (i + 1)⟩
  case mpr =>
    rintro ⟨h, hs⟩ (_ | i) k hk
    case zero =>
      cases hk
      exact h
    case succ => exact hs i k hk

theorem refusedAtOnce_cons (h : rotateProviderKey old new (nonces 0) key = some (.ok rotated)) :
    RefusedAtOnce old new nonces (key :: keys) ↔
      rotated = key ∧ RefusedAtOnce old new (fun n => nonces (n + 1)) keys := by
  constructor
  case mp =>
    rintro ⟨_ | k, refused, e, hk, he, hb⟩
    case zero =>
      cases hk
      cases h.symm.trans he
    case succ =>
      have hr := hb 0 key (Nat.zero_lt_succ k) rfl
      cases h.symm.trans hr
      exact ⟨rfl, k, refused, e, hk, he, fun i key hi => hb (i + 1) key (Nat.succ_lt_succ hi)⟩
  case mpr =>
    rintro ⟨rfl, k, refused, e, hk, he, hb⟩
    refine ⟨k + 1, refused, e, hk, he, ?_⟩
    rintro (_ | i) key' hi hk'
    case zero =>
      cases hk'
      exact h
    case succ => exact hb i key' (Nat.lt_of_succ_lt_succ hi) hk'

theorem rotateAll_ok (h : rotateProviderKey old new (nonces 0) key = some (.ok rotated)) :
    rotateAllProviderKeys old new nonces (key :: keys) =
      ((· + 1) <$> (rotateAllProviderKeys old new (fun n => nonces (n + 1)) keys).1,
        rotated :: (rotateAllProviderKeys old new (fun n => nonces (n + 1)) keys).2) := by
  rw [rotateAllProviderKeys, h]

theorem rotateAll_error (h : rotateProviderKey old new (nonces 0) key = some (.error e)) :
    rotateAllProviderKeys old new nonces (key :: keys) = (some (.error e), key :: keys) := by
  rw [rotateAllProviderKeys, h]
  rfl

theorem rotateAll_none (h : rotateProviderKey old new (nonces 0) key = none) :
    rotateAllProviderKeys old new nonces (key :: keys) = (none, key :: keys) := by
  rw [rotateAllProviderKeys, h]

-- All keys are moved when each can be.
theorem rotateAll_moves :
    ((∃ count, (rotateAllProviderKeys old new nonces keys).1 = some (.ok count)) ∧
      List.Forall₂ (SameKey old new) keys (rotateAllProviderKeys old new nonces keys).2) ↔
      Rotates old new nonces keys := by
  induction keys generalizing nonces
  case nil =>
    constructor
    case mp => nofun
    case mpr => exact fun _ => ⟨⟨0, rfl⟩, .nil⟩
  case cons key keys hi =>
    rw [rotates_cons, ← hi]
    obtain h | ⟨e, h⟩ | ⟨rotated, h⟩ :=
      outcome_cases (rotateProviderKey old new (nonces 0) key)
    case inl =>
      rw [rotateAll_none h, h]
      exact ⟨fun ⟨⟨_, h⟩, _⟩ => (nomatch h), fun ⟨⟨_, h⟩, _⟩ => (nomatch h)⟩
    case inr.inl =>
      rw [rotateAll_error h, h]
      exact ⟨fun ⟨⟨_, h⟩, _⟩ => (nomatch h), fun ⟨⟨_, h⟩, _⟩ => (nomatch h)⟩
    case inr.inr =>
      have hs : SameKey old new key rotated := rotateProviderKey_eq_ok h
      have hr : ∃ r, rotateProviderKey old new (nonces 0) key = some (.ok r) := ⟨rotated, h⟩
      rw [and_iff_right hr, rotateAll_ok h, map_eq_ok, List.forall₂_cons, and_iff_right hs]

-- An error leaves them all when none was changed before.
theorem rotateAll_refuses :
    ((∃ e, (rotateAllProviderKeys old new nonces keys).1 = some (.error e)) ∧
      (rotateAllProviderKeys old new nonces keys).2 = keys) ↔
      RefusedAtOnce old new nonces keys := by
  induction keys generalizing nonces
  case nil => exact ⟨fun ⟨⟨_, h⟩, _⟩ => (nomatch h), fun ⟨_, _, _, h, _⟩ => (nomatch h)⟩
  case cons key keys hi =>
    obtain h | ⟨e, h⟩ | ⟨rotated, h⟩ :=
      outcome_cases (rotateProviderKey old new (nonces 0) key)
    case inl =>
      rw [rotateAll_none h]
      constructor
      case mp => exact fun ⟨⟨_, h⟩, _⟩ => nomatch h
      case mpr =>
        rintro ⟨_ | k, refused, e, hk, he, hb⟩
        case zero =>
          cases hk
          cases h.symm.trans he
        case succ => cases h.symm.trans (hb 0 key (Nat.zero_lt_succ k) rfl)
    case inr.inl =>
      rw [rotateAll_error h]
      exact ⟨fun _ => ⟨0, key, e, rfl, h, nofun⟩, fun _ => ⟨⟨e, rfl⟩, rfl⟩⟩
    case inr.inr =>
      rw [refusedAtOnce_cons h, ← hi, rotateAll_ok h, map_eq_error, List.cons.injEq]
      exact and_left_comm

-- Either every key is what it was, or there's an error and none was changed.
def AllOrNone (old new : MasterKek) (keys : List String) (outcome : Outcome CryptoError Nat)
    (left : List String) : Prop :=
  ((∃ count, outcome = some (.ok count)) ∧ List.Forall₂ (SameKey old new) keys left) ∨
    ((∃ e, outcome = some (.error e)) ∧ left = keys)

theorem allOrNone_iff : AllOrNone old new keys (rotateAllProviderKeys old new nonces keys).1
    (rotateAllProviderKeys old new nonces keys).2 ↔
      Rotates old new nonces keys ∨ RefusedAtOnce old new nonces keys := by
  rw [AllOrNone, rotateAll_moves, rotateAll_refuses]

-- Keys are read without a panic unless a character is cut. What's read is hexadecimal unless it has
-- a sign. And all keys are moved or none, unless one is refused after another was changed.
theorem stored_keys (s plaintext : String) (kek old new : MasterKek) (nonce : Option Nonce)
    (nonces : Nat → Option Nonce) (keys : List String) :
    (Hex.decode s ≠ none ↔ ¬Splits s) ∧
    (MasterKek.fromHex s ≠ none ↔ ¬Splits (Text.trim s)) ∧
    (kek.decrypt s ≠ none ↔ ¬Torn s) ∧
    (HexText s → ∃ bytes, Hex.decode s = some (.ok bytes)) ∧
    (∀ bytes, Hex.decode s = some (.ok bytes) →
      (HexText s ↔ '+' ∉ s.toList) ∧ (Hex.encode bytes = Hex.lower s ↔ '+' ∉ s.toList)) ∧
    (∀ stored, kek.encrypt nonce plaintext = .ok stored →
      kek.decrypt stored = some (.ok plaintext)) ∧
    (∀ text, kek.decrypt s = some (.ok text) →
      ∃ nonce payload, parts s = ["v1", nonce, payload] ∧
        (HexText nonce ∧ HexText payload ↔ '+' ∉ s.toList)) ∧
    (AllOrNone old new keys (rotateAllProviderKeys old new nonces keys).1
        (rotateAllProviderKeys old new nonces keys).2 ↔
      Rotates old new nonces keys ∨ RefusedAtOnce old new nonces keys) := by
  refine ⟨Hex.decode_eq_none.not, MasterKek.fromHex_eq_none.not, MasterKek.decrypt_eq_none.not,
    Hex.exists_decode_of_hexText, ?_, ?_, ?_, allOrNone_iff⟩
  case refine_1 => exact fun bytes h => ⟨Hex.hexText_iff h, Hex.encode_eq_lower h⟩
  case refine_2 => exact fun stored h => MasterKek.decrypt_encrypt h
  case refine_3 => exact fun text h => MasterKek.hexText_of_decrypt h

end

-- An encryption that only marks a text with its key.
abbrev marked : Aead where
  sealed kek _ plaintext := some (kek.key[0] :: plaintext)
  opened kek _ payload :=
    match payload with
    | []        => none
    | b :: text => if b = kek.key[0] then some text else none
  opened_sealed h := by
    cases h
    exact if_pos rfl

-- A character is cut, a sign is read, and of two keys only the first is moved.
theorem stored_keys_torn :
    Hex.decode "€a" = none ∧
    (Hex.decode "+f" = some (.ok [15]) ∧ ¬HexText "+f") ∧
    ∃ (_ : Aead) (old new : MasterKek) (nonces : Nat → Option Nonce) (keys : List String),
      ¬AllOrNone old new keys (rotateAllProviderKeys old new nonces keys).1
        (rotateAllProviderKeys old new nonces keys).2 := by
  refine ⟨?_, ⟨?_, ?_⟩, ?_⟩
  case refine_1 =>
    have hl : "€a".toList = ['€', 'a'] := String.toList_ofList
    refine Hex.decode_eq_none.mpr ⟨rfl, [], [], ['€', 'a'], hl, .nil, .first ?_⟩
    decide
  case refine_2 =>
    have hl : "+f".toList = ['+', 'f'] := String.toList_ofList
    refine Hex.decode_eq_ok.mpr ?_
    rw [hl]
    exact .cons rfl .nil
  case refine_3 =>
    have hl : "+f".toList = ['+', 'f'] := String.toList_ofList
    intro ⟨_, h⟩
    rw [hl] at h
    cases h '+' (by simp)
  case refine_4 =>
    let old : MasterKek := ⟨.replicate kekLen 0⟩
    let new : MasterKek := ⟨.replicate kekLen 1⟩
    let nonce : Nonce := .replicate nonceLen 0
    let stored payload := "v1:" ++ Hex.encode nonce.toList ++ ":" ++ Hex.encode payload
    have hk : @MasterKek.encrypt marked old (some nonce) "" = .ok (stored [0]) := rfl
    have hn : @MasterKek.encrypt marked new (some nonce) "" = .ok (stored [1]) := rfl
    have hd := @MasterKek.decrypt_encrypt _ marked _ _ _ hk
    have hr : @rotateProviderKey marked old new (some nonce) (stored [0]) =
        some (.ok (stored [1])) := by
      refine bind_eq_ok.mpr ⟨"", hd, ?_⟩
      rw [hn]
      rfl
    have he : @rotateProviderKey marked old new (some nonce) "" =
        some (.error .invalidCiphertextFormat) := rfl
    refine ⟨marked, old, new, fun _ => some nonce, [stored [0], ""], ?_⟩
    intro h
    obtain h | h := (@allOrNone_iff marked old new _ _).mp h
    case inl =>
      have ⟨_, h⟩ := h 1 "" rfl
      cases he.symm.trans h
    case inr =>
      have ⟨h, _⟩ := (@refusedAtOnce_cons marked old new (fun _ => some nonce) _ _ [""] hr).mp h
      have h := congrArg Hex.decode (Text.append_right_injective h)
      rw [Hex.decode_encode, Hex.decode_encode] at h
      exact absurd (Except.ok.inj (Option.some.inj h)) (by decide)

end Billing
