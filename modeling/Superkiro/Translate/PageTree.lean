import Superkiro.Translate.Documents

namespace Translate.Documents

open Bytes

def isHexByte (b : UInt8) : Bool :=
  isDigit b || (65 ≤ b && b ≤ 70) || (97 ≤ b && b ≤ 102) || isWhitespace b

-- What can be inside a dictionary, where the dictionaries in it are closed. Those start with a
-- name, as dictionaries do.
inductive Body : List UInt8 → Prop
  | nil : Body []
  | byte {b bs} : b ≠ 60 → b ≠ 62 → Body bs → Body (b :: bs)
  | hex {digits bs} : (∀ d ∈ digits, isHexByte d) → Body bs → Body (60 :: digits ++ 62 :: bs)
  | dict {inner bs} : Body inner → inner.head? ≠ some 60 → Body bs →
    Body (60 :: 60 :: inner ++ 62 :: 62 :: bs)

-- The number that an entry's value starts with.
def numberOf (value : List UInt8) : Option Nat :=
  parseUsize ((trimStart value).takeWhile isDigit)

-- Where `/Count` is written first in a dictionary, but not in one inside it.
structure FirstCount (body before after : List UInt8) : Prop where
  eq       : body = before ++ ascii "/Count" ++ after
  balanced : Body before
  first    : ∀ before' after', body = before' ++ ascii "/Count" ++ after' → Body before' →
    before.length ≤ before'.length

-- A page tree node's dictionary, with its entries for the type and the count.
structure Node where
  body       : List UInt8
  beforeType : List UInt8
  type       : List UInt8
  before     : List UInt8
  value      : List UInt8
  type_eq    : body = beforeType ++ ascii "/Type" ++ type
  count_eq   : body = before ++ ascii "/Count" ++ value
  name       : value.head?.any isAlphanumeric = false
  type_body  : Body beforeType
  count_body : Body before
  closed     : Body body
  starts     : body.head? ≠ some 60
  short      : body.length + 4 < maxNodeBytes

namespace Node

-- A file with the dictionary somewhere in it.
def inside (node : Node) (pre post : List UInt8) : List UInt8 :=
  pre ++ 60 :: 60 :: node.body ++ 62 :: 62 :: post

-- What's counted for the node in a file.
def counted (node : Node) (pre post : List UInt8) : Option (Option Nat) :=
  countAt (node.inside pre post) (pre.length + 2 + node.beforeType.length)

-- The first `/Count` that's written in the dictionary has the number of its own entry.
def Plain (node : Node) : Prop :=
  ∀ before after, FirstCount node.body before after → numberOf after = numberOf node.value

end Node

variable {body inner before after rest digits bs r : List UInt8} {b c e : UInt8} {d room : Nat}

theorem scanBack_skip (hc : ¬(b = 62 ∧ c = 62)) (ho : ¬(b = 60 ∧ c = 60)) (hr : 1 ≤ room) :
    scanBack d (room + 1) (b :: c :: r) = scanBack d room (c :: r) := by
  rw [scanBack, if_neg (by omega), if_neg (by simpa [and_comm] using hc),
    if_neg (by simpa [and_comm] using ho), Nat.add_sub_cancel]

theorem scanBack_close :
    scanBack d (room + 2) (62 :: 62 :: r) = scanBack (d + 1) room r := by
  rw [scanBack, if_neg (by omega), if_pos rfl, Nat.add_sub_cancel]

theorem scanBack_open : scanBack (d + 1) (room + 2) (60 :: 60 :: r) = scanBack d room r := by
  rw [scanBack, if_neg (by omega), if_neg (by decide), if_pos rfl, if_neg (Nat.succ_ne_zero d),
    Nat.add_sub_cancel, Nat.add_sub_cancel]

theorem isHexByte_ne (h : isHexByte b) : b ≠ 60 ∧ b ≠ 62 ∧ b ≠ 47 := by
  refine ⟨?_, ?_, ?_⟩ <;> (rintro rfl; revert h; decide)

theorem scanBack_digits (h : ∀ d ∈ digits, isHexByte d) (hr : 1 ≤ room) :
    scanBack d (digits.length + room) (digits ++ 60 :: r) = scanBack d room (60 :: r) := by
  induction digits
  case nil => rw [List.length_nil, Nat.zero_add, List.nil_append]
  case cons digit digits hi =>
    have ⟨hd, hds⟩ := List.forall_mem_cons.mp h
    have ⟨ho, hc, _⟩ := isHexByte_ne hd
    rw [←hi hds, List.length_cons, Nat.add_right_comm, List.cons_append]
    cases digits
    case nil => exact scanBack_skip (fun h => hc h.left) (fun h => ho h.left) (by omega)
    case cons => exact scanBack_skip (fun h => hc h.left) (fun h => ho h.left) (by omega)

-- Going back, what's in a dictionary is passed.
theorem scanBack_body (h : Body body) (hs : body.head? = some 60 → c ≠ 60) (hr : 1 ≤ room) :
    scanBack d (body.length + room) (body.reverse ++ c :: r) = scanBack d room (c :: r) := by
  induction h generalizing d room c r
  case nil => rw [List.length_nil, Nat.zero_add, List.reverse_nil, List.nil_append]
  case byte b bs ho hc hb hi =>
    rw [List.reverse_cons, List.append_assoc, List.length_cons, Nat.add_assoc,
      List.singleton_append, hi (fun _ => ho) (by omega), Nat.add_comm]
    exact scanBack_skip (fun h => hc h.left) (fun h => ho h.left) hr
  case hex digits bs hd hb hi =>
    have hne : c ≠ 60 := hs rfl
    have hl : (60 :: digits ++ 62 :: bs).length + room =
        bs.length + (digits.length + (room + 1) + 1) := by
      simp
      omega
    have hrev : (60 :: digits ++ 62 :: bs).reverse ++ c :: r =
        bs.reverse ++ 62 :: (digits.reverse ++ 60 :: c :: r) := by simp
    rw [hl, hrev, hi (fun _ => by decide) (by omega)]
    have hdr : ∀ d ∈ digits.reverse, isHexByte d := fun d hm => hd d (List.mem_reverse.mp hm)
    have hstep : scanBack d (digits.length + (room + 1) + 1)
        (62 :: (digits.reverse ++ 60 :: c :: r)) =
          scanBack d (digits.length + (room + 1)) (digits.reverse ++ 60 :: c :: r) := by
      cases hx : digits.reverse
      case nil => exact scanBack_skip (by decide) (by decide) (by omega)
      case cons x xs =>
        have ⟨_, hc, _⟩ := isHexByte_ne (hdr x (by rw [hx]; exact .head _))
        exact scanBack_skip (fun h => hc h.right) (fun h => absurd h.left (by decide)) (by omega)
    have hdigits := scanBack_digits (d := d) (r := c :: r) hdr (show 1 ≤ room + 1 by omega)
    rw [List.length_reverse] at hdigits
    rw [hstep, hdigits]
    exact scanBack_skip (by simp) (fun h => hne h.right) hr
  case dict inner bs hin hn hb hi hi' =>
    have hl : (60 :: 60 :: inner ++ 62 :: 62 :: bs).length + room =
        bs.length + (inner.length + (room + 2) + 2) := by
      simp
      omega
    have hrev : (60 :: 60 :: inner ++ 62 :: 62 :: bs).reverse ++ c :: r =
        bs.reverse ++ 62 :: 62 :: (inner.reverse ++ 60 :: 60 :: c :: r) := by simp
    rw [hl, hrev, hi' (fun _ => by decide) (by omega), scanBack_close,
      hi (fun h => absurd h hn) (by omega), scanBack_open]

theorem count_eq : ascii "/Count" = [47, 67, 111, 117, 110, 116] := by decide +kernel

theorem head_of_count (h : ascii "/Count" <+: b :: bs) : b = 47 := by
  rw [count_eq, List.cons_prefix_cons] at h
  exact h.left.symm

theorem scanCount_skip (hc : ¬(b = 62 ∧ c = 62)) (ho : ¬(b = 60 ∧ c = 60))
    (hn : d = 1 → ¬ascii "/Count" <+: b :: c :: r) (hr : 1 ≤ room) :
    scanCount d (room + 1) (b :: c :: r) = scanCount d room (c :: r) := by
  rw [scanCount, if_neg (by omega), if_neg (by simpa using ho), if_neg (by simpa using hc),
    if_neg (by simpa using hn), Nat.add_sub_cancel]

theorem scanCount_close : scanCount (d + 2) (room + 2) (62 :: 62 :: r) =
    scanCount (d + 1) room r := by
  rw [scanCount, if_neg (by omega), if_neg (by decide), if_pos rfl, if_neg (by omega),
    Nat.add_sub_cancel]
  rfl

theorem scanCount_open : scanCount d (room + 2) (60 :: 60 :: r) = scanCount (d + 1) room r := by
  rw [scanCount, if_neg (by omega), if_pos rfl, Nat.add_sub_cancel]

-- The bracket that may be left of a hex string: it closed a dictionary with the next one.
def owed (left : Bool) : List UInt8 := if left then [62] else []

-- A left bracket is passed like any other byte where no closing bracket follows.
theorem scanCount_owed {left : Bool} (hc : b ≠ 62) (hr : 1 ≤ room) :
    scanCount d (room + (owed left).length) (owed left ++ b :: r) = scanCount d room (b :: r) := by
  cases left
  case false => rfl
  case true =>
    exact scanCount_skip (fun h => hc h.right) (by simp)
      (fun _ h => absurd (head_of_count h) (by decide)) hr

theorem scanCount_digits (h : ∀ d ∈ digits, isHexByte d) (hr : 1 ≤ room) :
    scanCount d (digits.length + room) (digits ++ 62 :: r) = scanCount d room (62 :: r) := by
  induction digits
  case nil => rw [List.length_nil, Nat.zero_add, List.nil_append]
  case cons digit digits hi =>
    have ⟨hd, hds⟩ := List.forall_mem_cons.mp h
    have ⟨ho, hc, hn⟩ := isHexByte_ne hd
    rw [←hi hds, List.length_cons, Nat.add_right_comm, List.cons_append]
    have hn (_ : d = 1) {bs : List UInt8} (h : ascii "/Count" <+: digit :: bs) : False :=
      hn (head_of_count h)
    cases digits
    case nil =>
      exact scanCount_skip (fun h => hc h.left) (fun h => ho h.left) (fun h => hn h) (by omega)
    case cons =>
      exact scanCount_skip (fun h => hc h.left) (fun h => ho h.left) (fun h => hn h) (by omega)

theorem head_body (h : Body body) : body.head? ≠ some 62 := by
  cases h
  case nil => nofun
  case byte hc _ => simpa using hc
  case hex => simp
  case dict => simp

-- What's written before `rest` is no `/Count` of this dictionary.
def Clear (d : Nat) (body rest : List UInt8) : Prop :=
  d = 1 → ∀ before after, body ++ rest = before ++ ascii "/Count" ++ after → Body before →
    body.length ≤ before.length

theorem Clear.tail {x : List UInt8} (h : Clear d (x ++ body) rest)
    (hx : ∀ before, Body before → Body (x ++ before)) : Clear d body rest := by
  intro hd before after he hb
  have := h hd (x ++ before) after (by simp only [List.append_assoc] at he ⊢; rw [he])
    (hx before hb)
  simpa using this

theorem Clear.notCount (h : Clear d (b :: bs) rest) (hd : d = 1) :
    ¬ascii "/Count" <+: b :: bs ++ rest := by
  intro hp
  have := h hd [] _ (by rw [List.nil_append]; exact (List.prefix_iff_eq_append.mp hp).symm) .nil
  simp at this

-- After a part of a dictionary, what comes next is read with what is left of it.
theorem scanCount_owed_append (left : Bool) (h : Body bs) (hr : 1 ≤ room)
    (hi : ∃ left', scanCount d (bs.length + room) (bs ++ rest) =
      scanCount d (room + (owed left').length) (owed left' ++ rest)) :
    ∃ left', scanCount d (bs.length + room + (owed left).length) (owed left ++ (bs ++ rest)) =
      scanCount d (room + (owed left').length) (owed left' ++ rest) := by
  cases bs
  case nil => exact ⟨left, by rw [List.length_nil, Nat.zero_add, List.nil_append]⟩
  case cons b bs =>
    have hb := head_body h
    rw [List.cons_append, scanCount_owed (by simpa using hb) (by omega)]
    exact hi

-- Going on, what's in a dictionary is passed, apart from a bracket that may be left.
theorem scanCount_body (h : Body body) (hd : 1 ≤ d) (hc : Clear d body rest) (hn : rest ≠ [])
    (hr : 1 ≤ room) : ∃ left, scanCount d (body.length + room) (body ++ rest) =
      scanCount d (room + (owed left).length) (owed left ++ rest) := by
  induction h generalizing d rest room
  case nil => exact ⟨false, by rw [List.length_nil, Nat.zero_add]; rfl⟩
  case byte b bs hob hcb hb hi =>
    have hstep : scanCount d (bs.length + room + 1) (b :: (bs ++ rest)) =
        scanCount d (bs.length + room) (bs ++ rest) := by
      have hp := hc.notCount
      cases hx : bs ++ rest
      case nil => simp [hn] at hx
      case cons x xs =>
        rw [List.cons_append, hx] at hp
        exact scanCount_skip (fun h => hcb h.left) (fun h => hob h.left) hp (by omega)
    rw [List.length_cons, Nat.add_right_comm, List.cons_append, hstep]
    exact hi hd (hc.tail (x := [b]) fun _ hb => .byte hob hcb hb) hn hr
  case hex digits bs hdigits hb hi =>
    have hc' : Clear d bs rest := Clear.tail (x := 60 :: digits ++ [62])
      (by simpa using hc) fun before hb => by simpa using Body.hex hdigits hb
    have hl : (60 :: digits ++ 62 :: bs).length + room =
        digits.length + (bs.length + room + 1) + 1 := by
      simp
      omega
    have hs : 60 :: digits ++ 62 :: bs ++ rest = 60 :: (digits ++ 62 :: (bs ++ rest)) := by simp
    have hstep : scanCount d (digits.length + (bs.length + room + 1) + 1)
        (60 :: (digits ++ 62 :: (bs ++ rest))) =
          scanCount d (digits.length + (bs.length + room + 1)) (digits ++ 62 :: (bs ++ rest)) := by
      have hn (_ : d = 1) {bs : List UInt8} (h : ascii "/Count" <+: 60 :: bs) : False :=
        absurd (head_of_count h) (by decide)
      cases hx : digits
      case nil => exact scanCount_skip (by decide) (by decide) (fun h => hn h) (by omega)
      case cons x xs =>
        have ⟨ho, _, _⟩ := isHexByte_ne (hdigits x (by rw [hx]; exact .head _))
        exact scanCount_skip (by simp) (fun h => ho h.right) (fun h => hn h) (by omega)
    rw [hl, hs, hstep, scanCount_digits hdigits (by omega)]
    exact scanCount_owed_append true hb hr (hi hd hc' hn hr)
  case dict inner bs hin hs hb hi hi' =>
    have hc' : Clear d bs rest := Clear.tail (x := 60 :: 60 :: inner ++ [62, 62])
      (by simpa using hc) fun before hb => by simpa using Body.dict hin hs hb
    have hl : (60 :: 60 :: inner ++ 62 :: 62 :: bs).length + room =
        inner.length + (bs.length + room + 2) + 2 := by
      simp
      omega
    have happ : 60 :: 60 :: inner ++ 62 :: 62 :: bs ++ rest =
        60 :: 60 :: (inner ++ 62 :: 62 :: (bs ++ rest)) := by simp
    have ⟨e, he⟩ : ∃ e, d = e + 1 := ⟨d - 1, by omega⟩
    have ⟨left, hleft⟩ : ∃ left, scanCount (d + 1) (inner.length + (bs.length + room + 2))
        (inner ++ 62 :: 62 :: (bs ++ rest)) = scanCount (d + 1) (bs.length + room + 2 +
          (owed left).length) (owed left ++ 62 :: 62 :: (bs ++ rest)) :=
      hi (by omega) (by intro h; omega) (by simp) (by omega)
    have hclose : scanCount (d + 1) (bs.length + room + 2 + (owed left).length)
        (owed left ++ 62 :: 62 :: (bs ++ rest)) =
          scanCount d (bs.length + room + (owed left).length) (owed left ++ (bs ++ rest)) := by
      subst he
      cases left
      case false => exact scanCount_close
      case true => exact scanCount_close
    rw [hl, happ, scanCount_open, hleft, hclose]
    exact scanCount_owed_append left hb hr (hi' hd hc' hn hr)

theorem numberOf_append (value r : List UInt8) :
    (trimStart (value ++ 62 :: r)).takeWhile isDigit = (trimStart value).takeWhile isDigit := by
  induction value
  case nil => rfl
  case cons b value hi =>
    by_cases hw : isWhitespace b
    case pos =>
      rw [trimStart, trimStart, List.cons_append, List.dropWhile_cons_of_pos hw,
        List.dropWhile_cons_of_pos hw]
      exact hi
    case neg =>
      rw [trimStart, trimStart, List.cons_append, List.dropWhile_cons_of_neg hw,
        List.dropWhile_cons_of_neg hw, ←List.cons_append, List.takeWhile_append]
      have hd : (62 :: r).takeWhile isDigit = [] := List.takeWhile_cons_of_neg (by decide)
      split
      case isTrue h =>
        rw [hd, List.append_nil]
        exact ((List.takeWhile_prefix _).eq_of_length h).symm
      case isFalse => rfl

theorem FirstCount.clear (h : FirstCount body before after) (r : List UInt8) :
    Clear 1 before (ascii "/Count" ++ (after ++ r)) := by
  intro _ before' after' he hb
  by_contra hlt
  have ht := congrArg (List.take body.length) he
  rw [←List.append_assoc, ←List.append_assoc, ←h.eq, List.take_left] at ht
  have hle : (before' ++ ascii "/Count").length ≤ body.length := by
    rw [h.eq]
    simp only [List.length_append]
    omega
  rw [List.take_append, List.take_of_length_le hle] at ht
  exact hlt (h.first _ _ ht hb)

-- The number that's read of a dictionary is the one that's written first.
theorem scanCount_first (h : FirstCount body before after) (hr : 2 ≤ room) :
    scanCount 1 (body.length + room) (body ++ 62 :: r) = numberOf after := by
  have he : body ++ 62 :: r = before ++ (ascii "/Count" ++ (after ++ 62 :: r)) := by
    rw [h.eq]
    simp only [List.append_assoc]
  have hl : body.length + room = before.length + (after.length + room + 6) := by
    rw [h.eq]
    simp only [List.length_append, length_count]
    omega
  have ⟨left, hleft⟩ := scanCount_body h.balanced (le_refl 1) (h.clear (62 :: r))
    (by rw [count_eq]; simp) (show 1 ≤ after.length + room + 6 by omega)
  rw [he, hl, hleft]
  have hc : ascii "/Count" ++ (after ++ 62 :: r) =
      47 :: 67 :: ([111, 117, 110, 116] ++ (after ++ 62 :: r)) := by rw [count_eq]; rfl
  rw [hc, scanCount_owed (by decide) (by omega), scanCount, if_neg (by omega), if_neg (by decide),
    if_neg (by decide), ←hc, if_pos (by simp), numberOf, ←length_count, List.drop_left,
    numberOf_append]

theorem exists_firstCount (he : body = before ++ ascii "/Count" ++ after) (hb : Body before) :
    ∃ before after, FirstCount body before after := by
  induction hn : before.length using Nat.strong_induction_on generalizing before after
  case h n hi =>
    by_cases hf : ∃ before' after', body = before' ++ ascii "/Count" ++ after' ∧ Body before' ∧
        before'.length < before.length
    case pos =>
      have ⟨before', after', he', hb', hlt⟩ := hf
      exact hi _ (hn ▸ hlt) he' hb' rfl
    case neg =>
      refine ⟨before, after, he, hb, fun before' after' he' hb' => ?_⟩
      by_contra hlt
      exact hf ⟨before', after', he', hb', Nat.not_le.mp hlt⟩

namespace Node

variable (node : Node) (pre post : List UInt8)

theorem beforeType_head : node.beforeType.head? ≠ some 60 := by
  have hs := node.starts
  rw [node.type_eq] at hs
  cases hb : node.beforeType
  case nil => nofun
  case cons b bs =>
    rw [hb] at hs
    exact hs

theorem take_inside :
    (node.inside pre post).take (pre.length + 2 + node.beforeType.length) =
      pre ++ 60 :: 60 :: node.beforeType := by
  have he : node.inside pre post = (pre ++ 60 :: 60 :: node.beforeType) ++
      (ascii "/Type" ++ node.type ++ 62 :: 62 :: post) := by
    rw [inside, node.type_eq]
    simp
  rw [he, List.take_left']
  simp
  omega

-- The dictionary around the entry for the type is found, and its own `/Count` or what's taken for
-- it is read.
theorem counted_first (h : FirstCount node.body before after) :
    node.counted pre post = some (numberOf after) := by
  have hshort := node.short
  have hlen : node.beforeType.length + 5 ≤ node.body.length := by
    rw [node.type_eq]
    simp only [List.length_append, length_type]
    omega
  have hpos : pre.length + 2 + node.beforeType.length ≤ (node.inside pre post).length := by
    simp [inside]
    omega
  have hrev : (pre ++ 60 :: 60 :: node.beforeType).reverse =
      node.beforeType.reverse ++ 60 :: 60 :: pre.reverse := by simp
  have ⟨room, hroom, hr⟩ : ∃ room, min (pre.length + 2 + node.beforeType.length) maxNodeBytes =
      node.beforeType.length + (room + 2) ∧ 0 ≤ room :=
    ⟨min (pre.length + 2 + node.beforeType.length) maxNodeBytes - node.beforeType.length - 2,
      by omega, Nat.zero_le _⟩
  have hback : scanBack 0 (room + 2) (60 :: 60 :: pre.reverse) = some pre.length := by
    rw [scanBack, if_neg (by omega), if_neg (by decide), if_pos rfl, if_pos rfl,
      List.length_reverse]
  rw [counted, countAt_eq hpos, take_inside, hrev, hroom,
    scanBack_body node.type_body (fun h => absurd h node.beforeType_head) (by omega), hback,
    Option.bind_some]
  have hdrop : (node.inside pre post).drop pre.length =
      60 :: 60 :: (node.body ++ 62 :: 62 :: post) := by
    rw [inside, List.append_assoc, List.drop_left]
    rfl
  have hmax : maxNodeBytes = node.body.length + (maxNodeBytes - node.body.length - 2) + 2 := by
    omega
  rw [hdrop, hmax, scanCount_open, scanCount_first h (by omega)]

theorem counted_iff : (∀ pre post, node.counted pre post = some (numberOf node.value)) ↔
    node.Plain := by
  constructor
  · intro h before after hf
    have hc := h [] []
    rw [node.counted_first [] [] hf] at hc
    injection hc
  · intro h pre post
    have ⟨before, after, hf⟩ := exists_firstCount node.count_eq node.count_body
    rw [node.counted_first pre post hf, h before after hf]

end Node

-- A PDF is read within its bounds, and its pages are one at least. A page tree node's own count is
-- used if nothing before it in its dictionary reads like another one.
theorem pdf_read_exact (inflate : List UInt8 → List UInt8) (pdf : List UInt8) (node : Node) :
    (∃ count, pdfPageCount inflate pdf = some count ∧ ∀ pages ∈ count, 0 < pages) ∧
    (∃ answer, pdfEncrypted pdf = some answer) ∧
    ((∀ pre post, node.counted pre post = some (numberOf node.value)) ↔ node.Plain) :=
  ⟨pdfPageCount_total inflate pdf, pdfEncrypted_total pdf, Node.counted_iff node⟩

theorem Body.plain (h : ∀ b ∈ bs, b ≠ 60 ∧ b ≠ 62) : Body bs := by
  induction bs
  case nil => exact .nil
  case cons b bs hi =>
    have ⟨⟨ho, hc⟩, hbs⟩ := List.forall_mem_cons.mp h
    exact .byte ho hc (hi hbs)

-- A dictionary with an entry whose name starts with that of another one.
def longerName : Node where
  body       := ascii "/Type /Pages /Count2 9 /Count 3"
  beforeType := []
  type       := ascii " /Pages /Count2 9 /Count 3"
  before     := ascii "/Type /Pages /Count2 9 "
  value      := ascii " 3"
  type_eq    := by decide +kernel
  count_eq   := by decide +kernel
  name       := by decide +kernel
  type_body  := .nil
  count_body := .plain (by decide +kernel)
  closed     := .plain (by decide +kernel)
  starts     := by decide +kernel
  short      := by decide +kernel

theorem counted_longerName : longerName.counted [] [] = some (some 2) ∧
    longerName.counted [] [] ≠ some (numberOf longerName.value) := by decide +kernel

end Translate.Documents
