import Mathlib

-- Text as the program's language treats it. The functions go through lists of characters, where
-- they compute.
namespace Text

-- The length in bytes.
def len (s : String) : Nat := s.utf8ByteSize

def isWhitespace (c : Char) : Bool :=
  let n := c.toNat
  (9 ≤ n && n ≤ 13) || n == 0x20 || n == 0x85 || n == 0xa0 || n == 0x1680 ||
  (0x2000 ≤ n && n ≤ 0x200a) || n == 0x2028 || n == 0x2029 || n == 0x202f || n == 0x205f ||
  n == 0x3000

def isControl (c : Char) : Bool := c.toNat < 0x20 || (0x7f ≤ c.toNat && c.toNat ≤ 0x9f)

def isAsciiAlphanumeric (c : Char) : Bool :=
  ('0' ≤ c && c ≤ '9') || ('a' ≤ c && c ≤ 'z') || ('A' ≤ c && c ≤ 'Z')

def trimStart (s : List Char) : List Char := s.dropWhile isWhitespace

def trimEnd (s : List Char) : List Char := (s.reverse.dropWhile isWhitespace).reverse

def trim (s : String) : String := .ofList (trimEnd (trimStart s.toList))

def isBlank (s : String) : Bool := s.toList.all isWhitespace

def startsWith (s pre : String) : Bool := pre.toList.isPrefixOf s.toList

def stripPrefix (s pre : String) : Option String :=
  (s.toList.dropPrefix? pre.toList).map .ofList

def endsWith (s suf : List Char) : Bool := suf.isSuffixOf s

def lowerAscii (c : Char) : Char := if 'A' ≤ c && c ≤ 'Z' then .ofNat (c.toNat + 32) else c

def splitAt (sep : Char) : List Char → List (List Char)
  | [] => [[]]
  | c :: cs =>
    match splitAt sep cs with
    | []      => [[c]]
    | p :: ps => if c == sep then [] :: p :: ps else (c :: p) :: ps

-- `split_once`
def splitOnce (sep : Char) (s : String) : Option (String × String) :=
  match s.toList.span (· != sep) with
  | (_, [])          => none
  | (before, _ :: r) => some (.ofList before, .ofList r)

-- An identifier of at most `max` bytes: not blank, without control characters.
def validId (id : String) (max : Nat) : Bool :=
  !isBlank id && len id ≤ max && !id.toList.any isControl

def join (sep : String) : List String → String
  | []      => ""
  | s :: ss => ss.foldl (fun joined s => joined ++ sep ++ s) s

-- A number with leading zeros up to a width.
def padded (width n : Nat) : String :=
  .ofList (List.replicate (width - (toString n).length) '0') ++ toString n

-- Millionths as a decimal, without trailing zeros.
def microDecimal (micro : Int) : String :=
  let sign := if micro < 0 then "-" else ""
  let whole := micro.natAbs / 1000000
  let fraction := micro.natAbs % 1000000
  if fraction = 0 then sign ++ toString whole
  else
    let digits := ((padded 6 fraction).toList.reverse.dropWhile (· = '0')).reverse
    sign ++ toString whole ++ "." ++ .ofList digits

-- Seconds of the Unix epoch as a date and time.
def isoUtc (secs : Nat) : String :=
  let days := secs / 86400 + 719468
  let era := days / 146097
  let dayOfEra := days % 146097
  let yearOfEra := (dayOfEra - dayOfEra / 1460 + dayOfEra / 36524 - dayOfEra / 146096) / 365
  let dayOfYear := dayOfEra - (365 * yearOfEra + yearOfEra / 4 - yearOfEra / 100)
  let monthIndex := (5 * dayOfYear + 2) / 153
  let day := dayOfYear - (153 * monthIndex + 2) / 5 + 1
  let month := if monthIndex < 10 then monthIndex + 3 else monthIndex - 9
  let year := yearOfEra + era * 400 + if month ≤ 2 then 1 else 0
  let clock := secs % 86400
  padded 4 year ++ "-" ++ padded 2 month ++ "-" ++ padded 2 day ++ "T" ++
    padded 2 (clock / 3600) ++ ":" ++ padded 2 (clock % 3600 / 60) ++ ":" ++
    padded 2 (clock % 60) ++ "Z"

-- What comes before the rest of a text is the start of it.
@[simp]
theorem startsWith_append (pre s : String) : startsWith (pre ++ s) pre = true := by
  simp [startsWith, List.isPrefixOf_iff_prefix]

-- What is trimmed has nothing left to trim.
@[simp]
theorem trim_trim (s : String) : trim (trim s) = trim s := by
  let l := (s.toList).dropWhile isWhitespace
  have hs : trim s = .ofList (l.rdropWhile isWhitespace) := rfl
  have hstart : (l.rdropWhile isWhitespace).dropWhile isWhitespace = l.rdropWhile isWhitespace := by
    rw [List.dropWhile_eq_self_iff]
    intro hl
    rw [(List.rdropWhile_prefix isWhitespace l).getElem hl]
    exact List.dropWhile_eq_self_iff.mp (List.dropWhile_idempotent _ _) _
  have h : trim (trim s) =
      .ofList (((l.rdropWhile isWhitespace).dropWhile isWhitespace).rdropWhile isWhitespace) := by
    rw [hs]
    simp only [trim, trimStart, trimEnd, String.toList_ofList]
    rfl
  rw [h, hstart, List.rdropWhile_idempotent, hs]

theorem splitAt_ne_nil (sep : Char) (s : List Char) : splitAt sep s ≠ [] := by
  cases s
  case nil => simp [splitAt]
  case cons =>
    rw [splitAt]
    split
    case h_1 => simp
    case h_2 => split <;> simp

-- Where the separator comes first, there the text is split.
theorem splitAt_append {sep : Char} {a b : List Char} (h : sep ∉ a) :
    splitAt sep (a ++ sep :: b) = a :: splitAt sep b := by
  induction a
  case nil =>
    rw [List.nil_append, splitAt]
    split
    case h_1 h => exact absurd h (splitAt_ne_nil sep b)
    case h_2 h => rw [h, if_pos (by simp)]
  case cons c a hi =>
    simp only [List.mem_cons, not_or] at h
    rw [List.cons_append, splitAt, hi h.2]
    exact if_neg (by simpa using Ne.symm h.1)

theorem splitAt_of_not_mem {sep : Char} {a : List Char} (h : sep ∉ a) : splitAt sep a = [a] := by
  induction a
  case nil => rfl
  case cons c a hi =>
    simp only [List.mem_cons, not_or] at h
    rw [splitAt, hi h.2]
    exact if_neg (by simpa using Ne.symm h.1)

-- A text is its parts with the separators in between.
theorem mem_iff_mem_splitAt {sep c : Char} : ∀ {s : List Char}, c ≠ sep →
    (c ∈ s ↔ ∃ part ∈ splitAt sep s, c ∈ part)
  | [], _ => by simp [splitAt]
  | d :: s, hc => by
    have hi := mem_iff_mem_splitAt (s := s) hc
    rw [splitAt]
    split
    case h_1 h => exact absurd h (splitAt_ne_nil sep s)
    case h_2 p ps h =>
      rw [h] at hi
      split
      case isTrue hd =>
        rw [eq_of_beq hd, List.mem_cons, or_iff_right hc, hi]
        simp
      case isFalse hd =>
        rw [List.mem_cons, hi]
        simp [or_assoc]

theorem append_right_injective {pre s t : String} (h : pre ++ s = pre ++ t) : s = t := by
  simpa using h

-- Texts that start differently differ.
theorem append_ne {p q s t : String} (hp : ¬ p.toList <+: q.toList) (hq : ¬ q.toList <+: p.toList) :
    p ++ s ≠ q ++ t := by
  intro h
  have h := congrArg String.toList h
  simp only [String.toList_append] at h
  cases List.append_eq_append_iff.mp h
  case inl h => exact hp ⟨_, h.choose_spec.left.symm⟩
  case inr h => exact hq ⟨_, h.choose_spec.left.symm⟩

end Text
