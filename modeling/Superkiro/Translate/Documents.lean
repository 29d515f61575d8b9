import Superkiro.Lib.Bytes

-- What's read of attached files. In the functions that take parts of a file or go over it in a
-- loop, an outer option is none if a part is out of bounds or the loop doesn't end in time.
namespace Translate.Documents

open Bytes

-- How far a page tree node's dictionary is followed, either way from its `/Type`.
def maxNodeBytes : Nat := 64 * 1024

-- The most of a PDF's object streams inflated to count its pages.
def maxInflatedBytes : Nat := 16 * 1024 * 1024

def enclosingFrom (bytes : List UInt8) (floor : Nat) : Nat → Nat → Nat → Option (Option Nat)
  | 0, _, _               => none
  | fuel + 1, stop, depth =>
    if floor + 2 ≤ stop then do
      let window ← slice? bytes (stop - 2) stop
      if window = ascii ">>" then enclosingFrom bytes floor fuel (stop - 2) (depth + 1)
      else if window = ascii "<<" then
        if depth = 0 then some (some (stop - 2))
        else enclosingFrom bytes floor fuel (stop - 2) (depth - 1)
      else enclosingFrom bytes floor fuel (stop - 1) depth
    else some none

-- Where the dictionary holding the entry at `pos` starts: the `<<` it is inside, past any
-- dictionary before it that closes first.
def enclosingDictionary (bytes : List UInt8) (pos : Nat) : Option (Option Nat) :=
  enclosingFrom bytes (pos - maxNodeBytes) (pos + 1) pos 0

def countFrom (dictionary : List UInt8) : Nat → Nat → Nat → Option (Option Nat)
  | 0, _, _              => none
  | fuel + 1, depth, pos =>
    if pos + 1 < min dictionary.length maxNodeBytes then do
      let window ← slice? dictionary pos (pos + 2)
      if window = ascii "<<" then countFrom dictionary fuel (depth + 1) (pos + 2)
      else if window = ascii ">>" then
        if depth - 1 = 0 then some none else countFrom dictionary fuel (depth - 1) (pos + 2)
      else if depth = 1 && (ascii "/Count").isPrefixOf (← from? dictionary pos) then
        some (parseUsize ((trimStart (← from? dictionary (pos + 6))).takeWhile isDigit))
      else countFrom dictionary fuel depth (pos + 1)
    else some none

-- The `/Count` of the dictionary `dictionary` starts with: its own entry, not one of a dictionary
-- inside it, nor of an object after it.
def ownCount (dictionary : List UInt8) : Option (Option Nat) :=
  countFrom dictionary (dictionary.length + 1) 0 0

def typePositionsFrom (bytes value : List UInt8) : Nat → Nat → Option (List Nat)
  | 0, _             => none
  | fuel + 1, offset => do
    match find (ascii "/Type") (← from? bytes offset) with
    | none       => some []
    | some found =>
      let pos := offset + found
      let rest := trimStart (← from? bytes (pos + 5))
      let later ← typePositionsFrom bytes value fuel (pos + 5)
      match stripPrefix value rest with
      | some after => some (if after.head?.any isAlphanumeric then later else pos :: later)
      | none       => some later

-- Where a `/Type` entry names `value` (and not a longer name that starts with it).
def typePositions (bytes value : List UInt8) : Option (List Nat) :=
  typePositionsFrom bytes value (bytes.length + 1) 0

-- The count of the node whose `/Type` is at `pos`.
def countAt (bytes : List UInt8) (pos : Nat) : Option (Option Nat) := do
  match ← enclosingDictionary bytes pos with
  | none       => some none
  | some start => ownCount (← from? bytes start)

-- `/Count` of the page tree: each `/Type /Pages` node counts the pages under it, so the root's is
-- the largest.
def pageTreeCount (bytes : List UInt8) : Option (Option Nat) := do
  let counts ← (← typePositions bytes (ascii "/Pages")).mapM (countAt bytes)
  some ((counts.filterMap id).max?.filter (0 < ·))

-- Page objects (`/Type /Page`, not `/Pages`).
def pageObjects (bytes : List UInt8) : Option (Option Nat) := do
  let pages := (← typePositions bytes (ascii "/Page")).length
  some (if 0 < pages then some pages else none)

def countPages (bytes : List UInt8) : Option (Option Nat) := do
  match ← pageTreeCount bytes with
  | some pages => some (some pages)
  | none       => pageObjects bytes

-- What's inflated of the streams at some positions, after what has been of others.
def inflateStreams (inflate : List UInt8 → List UInt8) (pdf : List UInt8) :
    List Nat → List UInt8 → Option (List UInt8)
  | [], out           => some out
  | pos :: later, out => do
    let dictionaryStart := (rfind (ascii "<<") (← to? pdf pos)).getD pos
    match find (ascii "stream") (← from? pdf pos) with
    | none         => inflateStreams inflate pdf later out
    | some keyword =>
      let header ← slice? pdf dictionaryStart (pos + keyword)
      if (find (ascii "/FlateDecode") header).isNone then inflateStreams inflate pdf later out
      else
        let data ← from? pdf (pos + keyword + 6)
        let data := (stripPrefix [13] data).getD data
        let data := (stripPrefix [10] data).getD data
        let data ←
          match find (ascii "endstream") data with
          | some stop => to? data stop
          | none      => some data
        let room := maxInflatedBytes - out.length
        if room = 0 then some out
        else inflateStreams inflate pdf later (out ++ (inflate data).take room ++ [10])

-- The contents of a PDF's Flate-compressed object streams (`/Type /ObjStm`), one after the other.
def objectStreams (inflate : List UInt8 → List UInt8) (pdf : List UInt8) :
    Option (List UInt8) := do
  inflateStreams inflate pdf (← typePositions pdf (ascii "/ObjStm")) []

-- A PDF's pages: the count its page tree gives, else its page objects, looked for in the clear
-- first and then inside its compressed object streams.
def pdfPageCount (inflate : List UInt8 → List UInt8) (pdf : List UInt8) :
    Option (Option Nat) := do
  match ← countPages pdf with
  | some pages => some (some pages)
  | none       => countPages (← objectStreams inflate pdf)

-- How many digits there are, if there are any.
def number (bytes : List UInt8) : Option Nat :=
  let digits := (bytes.takeWhile isDigit).length
  if 0 < digits then some digits else none

-- Whether `value` starts with an indirect reference: `12 0 R`.
def isReference (value : List UInt8) : Option Bool := do
  match number value with
  | none        => some false
  | some object =>
    let rest ← from? value object
    let generationAt := rest.length - (trimStart rest).length
    if generationAt = 0 then some false
    else
      let rest ← from? rest generationAt
      match number rest with
      | none            => some false
      | some generation =>
        let rest ← from? rest generation
        let rAt := rest.length - (trimStart rest).length
        if 0 < rAt && (ascii "R").isPrefixOf (← from? rest rAt) then
          some !(← from? rest (rAt + 1)).head?.any isAlphanumeric
        else some false

def encryptedFrom (pdf : List UInt8) : Nat → Nat → Option Bool
  | 0, _             => none
  | fuel + 1, offset => do
    match find (ascii "/Encrypt") (← from? pdf offset) with
    | none       => some false
    | some found =>
      let value := trimStart (← from? pdf (offset + found + 8))
      if (ascii "<<").isPrefixOf value || (← isReference value) then some true
      else encryptedFrom pdf fuel (offset + found + 8)

-- Whether a PDF is encrypted: its trailer, or the cross-reference stream that stands for it, has an
-- `/Encrypt` entry, a dictionary or a reference to one.
def pdfEncrypted (pdf : List UInt8) : Option Bool := encryptedFrom pdf (pdf.length + 1) 0

example : pdfPageCount id (ascii "<</Resources <</A <</B 5 0 R>>>> /Type /Pages /Count 7>>") =
    some (some 7) := by decide +kernel

theorem length_type : (ascii "/Type").length = 5 := by decide +kernel

theorem type_ne_nil : ascii "/Type" ≠ [] := by decide +kernel

theorem closing_eq : ascii ">>" = [62, 62] := by decide +kernel

theorem opening_eq : ascii "<<" = [60, 60] := by decide +kernel

theorem length_count : (ascii "/Count").length = 6 := by decide +kernel

variable {bytes value pdf dictionary : List UInt8} {fuel offset pos depth : Nat}

theorem typePositionsFrom_total (h : offset ≤ bytes.length) (hf : bytes.length - offset < fuel) :
    ∃ positions, typePositionsFrom bytes value fuel offset = some positions ∧
      ∀ pos ∈ positions, pos + 5 ≤ bytes.length := by
  induction fuel generalizing offset
  case zero => omega
  case succ fuel hi =>
    rw [typePositionsFrom, from?_eq h, Option.bind_eq_bind, Option.bind_some]
    split
    case h_1 => exact ⟨[], rfl, nofun⟩
    case h_2 found hfound =>
      have hle := find_le hfound type_ne_nil
      rw [length_type, List.length_drop] at hle
      have ⟨later, hl, hp⟩ := hi
        (show offset + found + 5 ≤ bytes.length by omega) (by omega)
      simp only [from?_eq (show offset + found + 5 ≤ bytes.length by omega), hl, Option.bind_some]
      split
      case h_1 =>
        refine ⟨_, rfl, fun pos hm => ?_⟩
        split at hm
        case isTrue => exact hp pos hm
        case isFalse =>
          rcases List.mem_cons.mp hm with he | hm
          · omega
          · exact hp pos hm
      case h_2 => exact ⟨later, rfl, hp⟩

theorem typePositions_total (bytes value : List UInt8) : ∃ positions,
    typePositions bytes value = some positions ∧ ∀ pos ∈ positions, pos + 5 ≤ bytes.length :=
  typePositionsFrom_total (Nat.zero_le _) (by omega)

-- What `own_count` finds in a dictionary of which `depth` levels are open, where it follows it for
-- another `room` bytes.
def scanCount : Nat → Nat → List UInt8 → Option Nat
  | depth, room, a :: b :: rest =>
    if room < 2 then none
    else if [a, b] = [60, 60] then scanCount (depth + 1) (room - 2) rest
    else if [a, b] = [62, 62] then
      if depth - 1 = 0 then none else scanCount (depth - 1) (room - 2) rest
    else if depth = 1 && (ascii "/Count").isPrefixOf (a :: b :: rest) then
      parseUsize ((trimStart ((a :: b :: rest).drop 6)).takeWhile isDigit)
    else scanCount depth (room - 1) (b :: rest)
  | _, _, _                     => none

theorem scanCount_short (h : bytes.length < 2) (room : Nat) :
    scanCount depth room bytes = none := by
  match bytes with
  | []          => rw [scanCount]; nofun
  | [_]         => rw [scanCount]; nofun
  | _ :: _ :: _ => simp at h

theorem countFrom_eq (h : pos ≤ dictionary.length) (hf : dictionary.length - pos < fuel) :
    countFrom dictionary fuel depth pos =
      some (scanCount depth (maxNodeBytes - pos) (dictionary.drop pos)) := by
  induction fuel generalizing depth pos
  case zero => omega
  case succ fuel hi =>
    rw [countFrom]
    split
    case isFalse hlt =>
      by_cases hl : dictionary.length - pos < 2
      case pos => rw [scanCount_short (by rwa [List.length_drop])]
      case neg =>
        match hd : dictionary.drop pos with
        | []          => rw [scanCount]; nofun
        | [_]         => rw [scanCount]; nofun
        | _ :: _ :: _ => rw [scanCount, if_pos (by omega)]
    case isTrue hlt =>
      have hlen : pos + 2 ≤ dictionary.length := by omega
      have ⟨a, b, rest, hd⟩ : ∃ a b rest, dictionary.drop pos = a :: b :: rest := by
        match hd : dictionary.drop pos with
        | []             => have := congrArg List.length hd; simp at this; omega
        | [_]            => have := congrArg List.length hd; simp at this; omega
        | a :: b :: rest => exact ⟨a, b, rest, rfl⟩
      have hd₁ : dictionary.drop (pos + 1) = b :: rest := by
        rw [←List.drop_drop, hd, List.drop_one, List.tail_cons]
      have hd₂ : dictionary.drop (pos + 2) = rest := by
        rw [←List.drop_drop, hd]
        rfl
      have hw : (dictionary.take (pos + 2)).drop pos = [a, b] := by
        rw [List.drop_take, hd, Nat.add_sub_cancel_left]
        rfl
      have hroom : ¬maxNodeBytes - pos < 2 := by omega
      rw [slice?_eq (by omega) hlen, hw, hd, scanCount, if_neg hroom, opening_eq, closing_eq,
        Option.bind_eq_bind, Option.bind_some]
      split
      case isTrue => rw [hi (by omega) (by omega), hd₂, Nat.sub_sub]
      case isFalse =>
        split
        case isTrue =>
          split
          case isTrue => rfl
          case isFalse => rw [hi (by omega) (by omega), hd₂, Nat.sub_sub]
        case isFalse =>
          rw [from?_eq (by omega), Option.bind_some, hd]
          split
          case isTrue hc =>
            have hp : ascii "/Count" <+: a :: b :: rest := by
              simp only [Bool.and_eq_true] at hc
              exact List.isPrefixOf_iff_prefix.mp hc.right
            have hle := hp.length_le
            rw [length_count, ←hd, List.length_drop] at hle
            rw [from?_eq (by omega), Option.bind_some, ←hd, List.drop_drop]
          case isFalse => rw [hi (by omega) (by omega), hd₁, Nat.sub_sub]

theorem ownCount_eq (dictionary : List UInt8) :
    ownCount dictionary = some (scanCount 0 maxNodeBytes dictionary) :=
  countFrom_eq (Nat.zero_le _) (Nat.lt_succ_self _)

-- What `enclosing_dictionary` finds in the bytes before a position, the last of which comes first:
-- how many there are before the dictionary.
def scanBack : Nat → Nat → List UInt8 → Option Nat
  | depth, room, a :: b :: rest =>
    if room < 2 then none
    else if [b, a] = [62, 62] then scanBack (depth + 1) (room - 2) rest
    else if [b, a] = [60, 60] then
      if depth = 0 then some rest.length else scanBack (depth - 1) (room - 2) rest
    else scanBack depth (room - 1) (b :: rest)
  | _, _, _                     => none

theorem scanBack_le {start room : Nat} (h : scanBack depth room bytes = some start) :
    start ≤ bytes.length := by
  fun_induction scanBack depth room bytes
  case case1 => cases h
  case case2 hi =>
    have := hi h
    simp only [List.length_cons]
    omega
  case case3 =>
    injection h with h
    simp only [List.length_cons]
    omega
  case case4 hi =>
    have := hi h
    simp only [List.length_cons]
    omega
  case case5 hi =>
    have := hi h
    simp only [List.length_cons] at this ⊢
    omega
  case case6 => cases h

theorem scanBack_short (h : bytes.length < 2) (room : Nat) : scanBack depth room bytes = none := by
  match bytes with
  | []          => rw [scanBack]; nofun
  | [_]         => rw [scanBack]; nofun
  | _ :: _ :: _ => simp at h

theorem enclosingFrom_eq {floor stop : Nat} (h : stop ≤ bytes.length) (hf : stop < fuel)
    (hle : floor ≤ stop) : enclosingFrom bytes floor fuel stop depth =
      some (scanBack depth (stop - floor) (bytes.take stop).reverse) := by
  induction fuel generalizing depth stop
  case zero => omega
  case succ fuel hi =>
    rw [enclosingFrom]
    split
    case isFalse hlt =>
      match hd : (bytes.take stop).reverse with
      | []          => rw [scanBack]; nofun
      | [_]         => rw [scanBack]; nofun
      | _ :: _ :: _ => rw [scanBack, if_pos (by omega)]
    case isTrue hlt =>
      have ⟨n, hn⟩ : ∃ n, stop = n + 2 := ⟨stop - 2, by omega⟩
      subst hn
      have ⟨a, ha⟩ : ∃ a, bytes[n + 1]? = some a := ⟨_, List.getElem?_eq_getElem (by omega)⟩
      have ⟨b, hb⟩ : ∃ b, bytes[n]? = some b := ⟨_, List.getElem?_eq_getElem (by omega)⟩
      have ht₁ : bytes.take (n + 1) = bytes.take n ++ [b] := by
        rw [List.take_add_one, hb, Option.toList_some]
      have ht₂ : bytes.take (n + 2) = bytes.take n ++ [b, a] := by
        rw [List.take_add_one, ha, ht₁, Option.toList_some, List.append_assoc,
          List.singleton_append]
      have hw : (bytes.take (n + 2)).drop n = [b, a] := by
        rw [ht₂, List.drop_left' (List.length_take_of_le (by omega))]
      have hr₁ : (bytes.take (n + 1)).reverse = b :: (bytes.take n).reverse := by
        rw [ht₁, List.reverse_append]
        rfl
      have hr₂ : (bytes.take (n + 2)).reverse = a :: b :: (bytes.take n).reverse := by
        rw [ht₂, List.reverse_append]
        rfl
      have hroom : ¬n + 2 - floor < 2 := by omega
      rw [Nat.add_sub_cancel, slice?_eq (by omega) h, hw, hr₂, scanBack, if_neg hroom, opening_eq,
        closing_eq, Option.bind_eq_bind, Option.bind_some]
      split
      case isTrue =>
        rw [hi (by omega) (by omega) (by omega), Nat.sub_right_comm, Nat.add_sub_cancel]
      case isFalse =>
        split
        case isTrue =>
          split
          case isTrue =>
            rw [List.length_reverse, List.length_take_of_le (by omega)]
          case isFalse =>
            rw [hi (by omega) (by omega) (by omega), Nat.sub_right_comm, Nat.add_sub_cancel]
        case isFalse =>
          have hs : n + 1 - floor = n + 2 - floor - 1 := Nat.sub_right_comm (n + 2) 1 floor
          have hstop : n + 2 - 1 = n + 1 := rfl
          rw [hstop, hi (by omega) (by omega) (by omega), hr₁, hs]

theorem enclosingDictionary_eq (h : pos ≤ bytes.length) : enclosingDictionary bytes pos =
    some (scanBack 0 (min pos maxNodeBytes) (bytes.take pos).reverse) := by
  have hr : pos - (pos - maxNodeBytes) = min pos maxNodeBytes := by omega
  rw [enclosingDictionary, enclosingFrom_eq h (Nat.lt_succ_self _) (Nat.sub_le _ _), hr]

-- What's counted for a node, without the bounds of the parts that are taken.
theorem countAt_eq (h : pos ≤ bytes.length) : countAt bytes pos =
    some ((scanBack 0 (min pos maxNodeBytes) (bytes.take pos).reverse).bind fun start =>
      scanCount 0 maxNodeBytes (bytes.drop start)) := by
  rw [countAt, enclosingDictionary_eq h, Option.bind_eq_bind, Option.bind_some]
  cases hs : scanBack 0 (min pos maxNodeBytes) (bytes.take pos).reverse
  case none => rfl
  case some start =>
    have hle := scanBack_le hs
    rw [List.length_reverse, List.length_take_of_le h] at hle
    simp only [from?_eq (hle.trans h), Option.bind_eq_bind, Option.bind_some, ownCount_eq]

theorem mapM_total {xs : List Nat} {f : Nat → Option (Option Nat)} {g : Nat → Option Nat}
    (h : ∀ x ∈ xs, f x = some (g x)) : xs.mapM f = some (xs.map g) := by
  induction xs
  case nil => rfl
  case cons x xs hi =>
    rw [List.mapM_cons, h x (.head _), hi fun x hx => h x (.tail _ hx)]
    rfl

theorem pageTreeCount_total (bytes : List UInt8) : ∃ count, pageTreeCount bytes = some count ∧
    ∀ pages ∈ count, 0 < pages := by
  have ⟨positions, hp, hb⟩ := typePositions_total bytes (ascii "/Pages")
  rw [pageTreeCount, hp, Option.bind_eq_bind, Option.bind_some,
    mapM_total fun pos hm => countAt_eq ((Nat.le_add_right _ 5).trans (hb pos hm))]
  refine ⟨_, rfl, fun pages hm => ?_⟩
  have := (Option.filter_eq_some_iff.mp hm).right
  simpa using this

theorem pageObjects_total (bytes : List UInt8) : ∃ count, pageObjects bytes = some count ∧
    ∀ pages ∈ count, 0 < pages := by
  have ⟨positions, hp, _⟩ := typePositions_total bytes (ascii "/Page")
  rw [pageObjects, hp]
  refine ⟨_, rfl, fun pages hm => ?_⟩
  split at hm
  case isTrue h =>
    injection hm with hm
    exact hm ▸ h
  case isFalse => cases hm

theorem countPages_total (bytes : List UInt8) : ∃ count, countPages bytes = some count ∧
    ∀ pages ∈ count, 0 < pages := by
  have ⟨count, hc, hp⟩ := pageTreeCount_total bytes
  rw [countPages, hc, Option.bind_eq_bind, Option.bind_some]
  cases count
  case none => exact pageObjects_total bytes
  case some pages => exact ⟨some pages, rfl, hp⟩

variable {inflate : List UInt8 → List UInt8}

theorem inflateStreams_total {positions : List Nat} (h : ∀ pos ∈ positions, pos + 5 ≤ pdf.length)
    (out : List UInt8) : ∃ bytes, inflateStreams inflate pdf positions out = some bytes := by
  induction positions generalizing out
  case nil => exact ⟨out, rfl⟩
  case cons pos later hi =>
    have hpos := h pos (.head _)
    have hi := hi fun pos hm => h pos (.tail _ hm)
    have hstart : (rfind (ascii "<<") (pdf.take pos)).getD pos ≤ pos := by
      cases hr : rfind (ascii "<<") (pdf.take pos)
      case none => exact le_refl pos
      case some start =>
        have := rfind_lt hr
        rw [List.length_take] at this
        exact (this.trans_le (min_le_left _ _)).le
    rw [inflateStreams, to?_eq (by omega), from?_eq (by omega)]
    simp only [Option.bind_eq_bind, Option.bind_some]
    split
    case h_1 => exact hi out
    case h_2 keyword hk =>
      have hkeyword := find_le hk (by decide +kernel)
      have hstream : (ascii "stream").length = 6 := by decide +kernel
      rw [hstream, List.length_drop] at hkeyword
      rw [slice?_eq (by omega) (by omega), Option.bind_some]
      split
      case isTrue => exact hi out
      case isFalse =>
        rw [from?_eq (by omega), Option.bind_some]
        generalize (stripPrefix [10] _).getD _ = data
        split
        case h_1 stop hs =>
          have hstop := find_le hs (by decide +kernel)
          rw [to?_eq (by omega), Option.bind_some]
          split
          case isTrue => exact ⟨out, rfl⟩
          case isFalse => exact hi _
        case h_2 =>
          split
          case isTrue => exact ⟨out, rfl⟩
          case isFalse => exact hi _

theorem objectStreams_total (inflate : List UInt8 → List UInt8) (pdf : List UInt8) :
    ∃ bytes, objectStreams inflate pdf = some bytes := by
  have ⟨positions, hp, hb⟩ := typePositions_total pdf (ascii "/ObjStm")
  rw [objectStreams, hp]
  exact inflateStreams_total hb []

-- The pages of a PDF are counted without going out of bounds, and there is one at least.
theorem pdfPageCount_total (inflate : List UInt8 → List UInt8) (pdf : List UInt8) :
    ∃ count, pdfPageCount inflate pdf = some count ∧ ∀ pages ∈ count, 0 < pages := by
  have ⟨count, hc, hp⟩ := countPages_total pdf
  rw [pdfPageCount, hc, Option.bind_eq_bind, Option.bind_some]
  cases count
  case some pages => exact ⟨some pages, rfl, hp⟩
  case none =>
    have ⟨bytes, hb⟩ := objectStreams_total inflate pdf
    have ⟨count, hc, hp⟩ := countPages_total bytes
    exact ⟨count, by rw [hb]; exact hc, hp⟩

theorem number_le {n : Nat} (h : number bytes = some n) : n ≤ bytes.length := by
  rw [number] at h
  split at h
  case isTrue =>
    injection h with h
    exact h ▸ (List.takeWhile_prefix _).length_le
  case isFalse => cases h

theorem isReference_total (value : List UInt8) : ∃ answer, isReference value = some answer := by
  rw [isReference]
  split
  case h_1 => exact ⟨false, rfl⟩
  case h_2 object ho =>
    rw [from?_eq (number_le ho), Option.bind_eq_bind, Option.bind_some]
    generalize value.drop object = rest
    simp only
    split
    case isTrue => exact ⟨false, rfl⟩
    case isFalse =>
      rw [from?_eq (Nat.sub_le _ _), Option.bind_some]
      generalize rest.drop _ = rest
      split
      case h_1 => exact ⟨false, rfl⟩
      case h_2 generation hg =>
        rw [from?_eq (number_le hg), Option.bind_some]
        generalize rest.drop generation = rest
        rw [from?_eq (Nat.sub_le _ _), Option.bind_some, drop_trimStart]
        split
        case isTrue hr =>
          have hle := (List.isPrefixOf_iff_prefix.mp (Bool.and_eq_true_iff.mp hr).right).length_le
          have hlength : (ascii "R").length = 1 := by decide +kernel
          have htrim := length_trimStart rest
          rw [hlength] at hle
          exact ⟨_, by rw [from?_eq (by omega), Option.bind_some]⟩
        case isFalse => exact ⟨false, rfl⟩

theorem encryptedFrom_total (h : offset ≤ pdf.length) (hf : pdf.length - offset < fuel) :
    ∃ answer, encryptedFrom pdf fuel offset = some answer := by
  induction fuel generalizing offset
  case zero => omega
  case succ fuel hi =>
    rw [encryptedFrom, from?_eq h, Option.bind_eq_bind, Option.bind_some]
    split
    case h_1 => exact ⟨false, rfl⟩
    case h_2 found hfound =>
      have hle := find_le hfound (by decide +kernel)
      have hlength : (ascii "/Encrypt").length = 8 := by decide +kernel
      rw [hlength, List.length_drop] at hle
      have ⟨answer, ha⟩ := isReference_total (trimStart (pdf.drop (offset + found + 8)))
      rw [from?_eq (by omega), Option.bind_some]
      simp only [ha, Option.bind_eq_bind, Option.bind_some]
      split
      case isTrue => exact ⟨true, rfl⟩
      case isFalse => exact hi (by omega) (by omega)

theorem pdfEncrypted_total (pdf : List UInt8) : ∃ answer, pdfEncrypted pdf = some answer :=
  encryptedFrom_total (Nat.zero_le _) (Nat.lt_succ_self _)

end Translate.Documents
