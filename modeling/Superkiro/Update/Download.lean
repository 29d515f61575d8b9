import Superkiro.Lib.Decimal

namespace Update

abbrev Bytes := List UInt8

def artifactLimit : Nat := 512 * 1024 * 1024

-- What a signed manifest entry says of the file to download. `select` refuses other sizes.
structure Release (H : Type*) where
  sha256   : H
  size     : Nat
  size_pos : 1 ≤ size
  size_le  : size ≤ artifactLimit

inductive Resume
  | fresh
  | fromByte (n : Nat)
  | complete
  deriving DecidableEq

def resumePlan (existing size : Nat) : Resume :=
  if existing = 0 then .fresh
  else if existing = size then .complete
  else if existing < size then .fromByte existing
  else .fresh

def parseU64 (cs : List Char) : Option Nat :=
  (Decimal.digits? <| match cs with
    | '+' :: cs => cs
    | cs        => cs).filter (· < 2 ^ 64)

-- The first byte a part starts at. There is no header if it's not written in visible characters.
def contentRangeStart (contentRange : Option String) : Option Nat := do
  let value ← Text.stripPrefix (← contentRange) "bytes "
  parseU64 (Text.trimEnd (Text.trimStart (value.toList.takeWhile (· ≠ '-'))))

-- What a turn of the reading loop runs into. A chunk that can't be written may be written in part.
inductive Read
  | cancelled
  | overdue
  | stalled
  | broken (reason : String)
  | chunk (bytes : Bytes)
  | unwritten (bytes : Bytes) (written : Nat) (reason : String)

-- What the server answers. Its body ends where the reads do.
inductive Answer
  | silent
  | failed (reason : String)
  | response (status : Nat) (contentRange : Option String) (body : List Read)

-- What a call of `download` meets: a server that's asked for the bytes from some position on, or
-- for all of them, and a disk that may not open, save or read the part file.
structure Attempt where
  serve : Option Nat → Answer
  opens : Option String := none
  syncs : Option String := none
  reads : Bool := true

def checkedSub (a b : Nat) : Option Nat := if b ≤ a then some (a - b) else none

def checkedAdd (a b : Nat) : Option Nat := if a + b < 2 ^ 64 then some (a + b) else none

def cannotWrite (reason : String) : String :=
  "[update:replace] Cannot write beside the client: " ++ reason

-- Writes what is read to the part file, which is given with the number of bytes it counts. The
-- outer option is none if that number over- or underflows.
def receive (size : Nat) (file : Bytes) (received : Nat) :
    List Read → Option (Option Bytes × Except String Unit)
  | []                      => some (some file, .ok ())
  | .cancelled :: _         =>
    some (some file, .error "[update:download] The update was cancelled")
  | .overdue :: _           =>
    some (some file, .error "[update:download] The update download took too long")
  | .stalled :: _           =>
    some (some file, .error "[update:download] Update download timed out")
  | .broken reason :: _     => some (some file, .error ("[update:download] " ++ reason))
  | .chunk bytes :: rest    => do
    if (← checkedSub size received) < bytes.length then
      some (none, .error "[update:verify] The update is larger than was signed")
    else receive size (file ++ bytes) (← checkedAdd received bytes.length) rest
  | .unwritten bytes written reason :: _ => do
    if (← checkedSub size received) < bytes.length then
      some (none, .error "[update:verify] The update is larger than was signed")
    else some (some (file ++ bytes.take written), .error (cannotWrite reason))

variable {H : Type*} [DecidableEq H]

-- Appends to the part file or starts it over.
def write (size : Nat) (part : Option Bytes) (received : Nat) (continues : Bool)
    (body : List Read) : Option (Option Bytes × Except String Unit) :=
  if continues then
    match part with
    | some file => receive size file received body
    | none      => some (none, .error (cannotWrite "not found"))
  else receive size [] 0 body

-- Asks for the bytes that are missing, or for all of them, and adds them to the part file. An
-- answer from elsewhere than where the file ends isn't added.
def fetch (size : Nat) (part : Option Bytes) (received : Nat) (a : Attempt) :
    Option (Option Bytes × Except String Unit) :=
  match a.serve (if 0 < received then some received else none) with
  | .silent        => some (part, .error "[update:download] The update server did not answer")
  | .failed reason => some (part, .error ("[update:download] " ++ reason))
  | .response status contentRange body =>
    let continues := 0 < received && status = 206 && contentRangeStart contentRange = some received
    if !continues && status ≠ 200 then
      some (none, .error ("[update:download] Update HTTP " ++ toString status))
    else
      match a.opens with
      | some reason => some (part, .error (cannotWrite reason))
      | none        => (write size part received continues body).map fun (part, result) =>
        match result, a.syncs with
        | .ok (), some reason => (part, .error (cannotWrite reason))
        | result, _           => (part, result)

-- Whether the part file is what was signed. If it's not, but as long, it's removed.
def verify (sha256 : Bytes → H) (release : Release H) (part : Option Bytes) (reads : Bool) :
    Option Bytes × Except String Unit :=
  if (part.map (·.length)).getD 0 ≠ release.size then
    (part, .error "[update:download] The update download was cut short")
  else
    match part with
    | some file =>
      if reads && sha256 file = release.sha256 then (part, .ok ())
      else (none, .error "[update:verify] The update does not match its signed hash")
    | none => (none, .error "[update:verify] The update does not match its signed hash")

-- What a call starts from: the bytes there are, or none of them.
def startOf (release : Release H) (part : Option Bytes) : Option Bytes × Nat :=
  match resumePlan ((part.map (·.length)).getD 0) release.size with
  | .complete   => (part, release.size)
  | .fromByte n => (part, n)
  | .fresh      => (none, 0)

-- Continues the part file, if there is one, and returns it with the result of the call.
def download (sha256 : Bytes → H) (release : Release H) (part : Option Bytes) (a : Attempt) :
    Option (Option Bytes × Except String Unit) := do
  let (part, received) := startOf release part
  let (part, result) ←
    if received < release.size then fetch release.size part received a else some (part, .ok ())
  match result with
  | .error err => some (part, .error err)
  | .ok ()     => some (verify sha256 release part a.reads)

-- A part file that isn't longer than what was signed.
def Within (size : Nat) (part : Option Bytes) : Prop :=
  ∀ file, part = some file → file.length ≤ size

theorem within_none {size : Nat} : Within size none := nofun

theorem within_some {size : Nat} {file : Bytes} (h : file.length ≤ size) :
    Within size (some file) := by
  intro _ he
  injection he with he
  rwa [←he]

theorem checkedSub_eq {a b : Nat} (h : b ≤ a) : checkedSub a b = some (a - b) := if_pos h

theorem checkedAdd_eq {a b : Nat} (h : a + b ≤ artifactLimit) : checkedAdd a b = some (a + b) :=
  if_pos (h.trans_lt (by decide))

section Receive

variable {size : Nat} {file : Bytes}

-- The bytes counted are those of the file, and they never exceed the size.
theorem receive_within (hs : size ≤ artifactLimit) (reads : List Read)
    (h : file.length ≤ size) : ∃ part result,
      receive size file file.length reads = some (part, result) ∧ Within size part := by
  induction reads generalizing file
  case nil => exact ⟨_, _, rfl, within_some h⟩
  case cons read rest hi =>
    cases read
    case chunk bytes =>
      rw [receive, checkedSub_eq h, Option.bind_eq_bind, Option.bind_some]
      split
      case isTrue => exact ⟨_, _, rfl, within_none⟩
      case isFalse hle =>
        rw [checkedAdd_eq (by omega), Option.bind_some, ←List.length_append]
        exact hi (by rw [List.length_append]; omega)
    case unwritten bytes written reason =>
      rw [receive, checkedSub_eq h, Option.bind_eq_bind, Option.bind_some]
      split
      case isTrue => exact ⟨_, _, rfl, within_none⟩
      case isFalse hle =>
        refine ⟨_, _, rfl, within_some ?_⟩
        rw [List.length_append, List.length_take]
        omega
    all_goals exact ⟨_, _, rfl, within_some h⟩

-- Chunks that fit are added one after the other.
theorem receive_chunks (hs : size ≤ artifactLimit) (chunks : List Bytes)
    (h : file.length + chunks.flatten.length ≤ size) :
    receive size file file.length (chunks.map .chunk) =
      some (some (file ++ chunks.flatten), .ok ()) := by
  induction chunks generalizing file
  case nil => rw [List.map_nil, receive, List.flatten_nil, List.append_nil]
  case cons bytes rest hi =>
    rw [List.flatten_cons, List.length_append] at h
    rw [List.map_cons, receive, checkedSub_eq (by omega), Option.bind_eq_bind, Option.bind_some,
      if_neg (by omega), checkedAdd_eq (by omega), Option.bind_some, ←List.length_append,
      hi (by rw [List.length_append]; omega), List.flatten_cons, List.append_assoc]

end Receive

section Fetch

variable {size received : Nat} {part : Option Bytes} {a : Attempt}

-- The part file that a request continues.
structure Counted (size : Nat) (part : Option Bytes) (received : Nat) : Prop where
  within : Within size part
  file   : 0 < received → ∃ file, part = some file ∧ file.length = received

theorem write_within (hs : size ≤ artifactLimit) (h : Counted size part received)
    {continues : Bool} (hc : continues → 0 < received) (body : List Read) : ∃ part' result,
      write size part received continues body = some (part', result) ∧ Within size part' := by
  cases continues
  case false => exact receive_within hs body (Nat.zero_le _)
  case true =>
    have ⟨file, hf, hl⟩ := h.file (hc rfl)
    subst hf hl
    exact receive_within hs body (h.within file rfl)

theorem fetch_within (hs : size ≤ artifactLimit) (h : Counted size part received) (a : Attempt) :
    ∃ part' result, fetch size part received a = some (part', result) ∧ Within size part' := by
  rw [fetch]
  split
  case h_1 => exact ⟨_, _, rfl, h.within⟩
  case h_2 => exact ⟨_, _, rfl, h.within⟩
  case h_3 status contentRange body _ =>
    simp only
    split
    case isTrue => exact ⟨_, _, rfl, within_none⟩
    case isFalse =>
      split
      case h_1 => exact ⟨_, _, rfl, h.within⟩
      case h_2 =>
        have hc : (0 < received && status = 206 &&
            contentRangeStart contentRange = some received : Bool) → 0 < received := by
          intro hc
          simp at hc
          exact hc.left.left
        have ⟨part', result, hw, hle⟩ := write_within hs h hc body
        rw [hw, Option.map_some]
        split
        case h_1 => exact ⟨_, _, rfl, hle⟩
        case h_2 => exact ⟨_, _, rfl, hle⟩

end Fetch

section Served

theorem trimmed_solid {cs : List Char} (h : ∀ c ∈ cs, ¬Text.isWhitespace c) :
    Text.trimEnd (Text.trimStart cs) = cs := by
  have hs {cs : List Char} (h : ∀ c ∈ cs, ¬Text.isWhitespace c) :
      cs.dropWhile Text.isWhitespace = cs := by
    cases cs
    case nil => rfl
    case cons c cs => rw [List.dropWhile_cons_of_neg (h c (.head _))]
  rw [Text.trimStart, Text.trimEnd, hs h, hs fun c hc => h c (List.mem_reverse.mp hc),
    List.reverse_reverse]

theorem not_isWhitespace_of_isDigit {c : Char} (h : c.isDigit) : ¬Text.isWhitespace c := by
  have hl : 48 ≤ c.toNat := (Char.isDigit_iff_toNat.mp h).left
  have hu : c.toNat ≤ 57 := (Char.isDigit_iff_toNat.mp h).right
  simp [Text.isWhitespace]
  omega

theorem parseU64_toDigits {n : Nat} (h : n < 2 ^ 64) : parseU64 (Nat.toDigits 10 n) = some n := by
  rw [parseU64, Decimal.digits?_toDigits]
  case x =>
    intro cs he
    have hd : '+' ∈ Nat.toDigits 10 n := by rw [he]; exact .head _
    exact absurd (Decimal.isDigit_toDigits _ hd) (by decide)
  exact Option.filter_eq_some_iff.mpr ⟨rfl, by simpa using h⟩

-- The header of a part, which is the signed bytes from a position on.
def partOf (start : Nat) (rest : String) : String := "bytes " ++ toString start ++ "-" ++ rest

theorem contentRangeStart_partOf {start : Nat} (h : start < 2 ^ 64) (rest : String) :
    contentRangeStart (some (partOf start rest)) = some start := by
  have hd : ∀ c ∈ Nat.toDigits 10 start, c.isDigit := Decimal.isDigit_toDigits
  have hl : (partOf start rest).toList =
      "bytes ".toList ++ (Nat.toDigits 10 start ++ '-' :: rest.toList) := by
    simp [partOf]
  have hs : Text.stripPrefix (partOf start rest) "bytes " =
      some (.ofList (Nat.toDigits 10 start ++ '-' :: rest.toList)) := by
    rw [Text.stripPrefix, hl, List.dropPrefix?_eq_some_iff.mpr ⟨_, rfl, beq_self_eq_true _⟩]
    rfl
  have ht : (Nat.toDigits 10 start ++ '-' :: rest.toList).takeWhile (· ≠ '-') =
      Nat.toDigits 10 start := by
    rw [List.takeWhile_append_of_pos, List.takeWhile_cons_of_neg (by simp), List.append_nil]
    intro c hc
    have := hd c hc
    simp only [decide_eq_true_eq]
    rintro rfl
    exact absurd this (by decide)
  simp only [contentRangeStart, Option.bind_eq_bind, Option.bind_some, hs, String.toList_ofList]
  rw [ht, trimmed_solid fun c hc => not_isWhitespace_of_isDigit (hd c hc), parseU64_toDigits h]

-- What's read where nothing fails on the way.
def Sends (bytes : Bytes) (body : List Read) : Prop :=
  ∃ chunks : List Bytes, body = chunks.map .chunk ∧ chunks.flatten = bytes

-- An attempt where the disk doesn't fail, and the server sends the signed bytes, from the position
-- that's asked for on or all of them.
structure Serves (signed : Bytes) (a : Attempt) : Prop where
  opens  : a.opens = none
  syncs  : a.syncs = none
  reads  : a.reads = true
  whole  : ∃ contentRange body, a.serve none = .response 200 contentRange body ∧ Sends signed body
  ranged : ∀ start,
    (∃ contentRange body, a.serve (some start) = .response 200 contentRange body ∧
      Sends signed body) ∨
    ∃ rest body, a.serve (some start) = .response 206 (some (partOf start rest)) body ∧
      Sends (signed.drop start) body

variable {signed : Bytes} {a : Attempt} {size received : Nat} {part : Option Bytes}
  {body : List Read}

theorem write_whole (h : Sends signed body) (hl : signed.length = size)
    (hs : size ≤ artifactLimit) :
    write size part received false body = some (some signed, .ok ()) := by
  have ⟨chunks, hb, hc⟩ := h
  subst hb hc
  exact @receive_chunks _ [] hs chunks (by rw [List.length_nil]; omega)

theorem write_rest {file : Bytes} (h : Sends (signed.drop file.length) body)
    (hl : signed.length = size) (hs : size ≤ artifactLimit) (hf : file.length ≤ size) :
    write size (some file) file.length true body =
      some (some (file ++ signed.drop file.length), .ok ()) := by
  have ⟨chunks, hb, hc⟩ := h
  subst hb
  rw [←hc]
  exact receive_chunks hs chunks (by rw [hc, List.length_drop]; omega)

theorem fetch_whole (h : Serves signed a) (hl : signed.length = size) (hs : size ≤ artifactLimit) :
    fetch size part 0 a = some (some signed, .ok ()) := by
  have ⟨contentRange, body, hserve, hbody⟩ := h.whole
  simp [fetch, hserve, h.opens, h.syncs, write_whole hbody hl hs]

-- Whichever way the bytes are served, there are as many as were signed.
theorem fetch_served (h : Serves signed a) (hl : signed.length = size) (hs : size ≤ artifactLimit)
    (hc : Counted size part received) (hr : received < size) :
    ∃ file, fetch size part received a = some (some file, .ok ()) ∧ file.length = size := by
  by_cases hp : 0 < received
  case neg =>
    have hz : received = 0 := by omega
    subst hz
    exact ⟨signed, fetch_whole h hl hs, hl⟩
  case pos =>
    have ⟨file, hf, hlen⟩ := hc.file hp
    subst hf hlen
    rcases h.ranged file.length with
      ⟨contentRange, body, hserve, hbody⟩ | ⟨rest, body, hserve, hbody⟩
    · exact ⟨signed, by simp [fetch, hp, hserve, h.opens, h.syncs, write_whole hbody hl hs], hl⟩
    · have hlt : file.length < 2 ^ 64 := by
        have : artifactLimit < 2 ^ 64 := by decide
        omega
      refine ⟨file ++ signed.drop file.length, ?_, ?_⟩
      · simp [fetch, hp, hserve, h.opens, h.syncs, contentRangeStart_partOf hlt,
          write_rest hbody hl hs hr.le]
      · rw [List.length_append, List.length_drop]
        omega

end Served

variable {sha256 : Bytes → H} {release : Release H} {part : Option Bytes} {a : Attempt}

theorem verify_ok {reads : Bool} (h : (verify sha256 release part reads).2 = .ok ()) :
    ∃ file, (verify sha256 release part reads).1 = some file ∧ file.length = release.size ∧
      sha256 file = release.sha256 := by
  simp only [verify] at h ⊢
  split
  case isTrue hn => rw [if_pos hn] at h; cases h
  case isFalse hn =>
    rw [if_neg hn] at h
    cases part
    case none => cases h
    case some file =>
      simp only at h ⊢
      split
      case isTrue hc => exact ⟨file, rfl, by simpa using hn, by simp at hc; exact hc.right⟩
      case isFalse hc => rw [if_neg hc] at h; cases h

theorem verify_within {reads : Bool} (h : Within release.size part) :
    Within release.size (verify sha256 release part reads).1 := by
  simp only [verify]
  split
  case isTrue => exact h
  case isFalse =>
    split
    case h_1 =>
      split
      case isTrue => exact h
      case isFalse => exact within_none
    case h_2 => exact within_none

-- A file that's as long as it should be is what was signed or it's gone.
theorem verify_full {file : Bytes} {reads : Bool} (h : file.length = release.size) :
    (verify sha256 release (some file) reads).2 = .ok () ∨
      (verify sha256 release (some file) reads).1 = none := by
  simp only [verify, Option.map_some, Option.getD_some, h, ne_eq, not_true_eq_false, if_false]
  split
  case isTrue => exact .inl rfl
  case isFalse => exact .inr rfl

theorem verify_signed {signed : Bytes} (h : sha256 signed = release.sha256)
    (hl : signed.length = release.size) :
    verify sha256 release (some signed) true = (some signed, .ok ()) := by
  simp [verify, h, hl]

theorem download_eq : download sha256 release part a =
    (if (startOf release part).2 < release.size then
        fetch release.size (startOf release part).1 (startOf release part).2 a
      else some ((startOf release part).1, .ok ())).map fun fetched =>
      match fetched.2 with
      | .error err => (fetched.1, .error err)
      | .ok ()     => verify sha256 release fetched.1 a.reads := by
  rw [download]
  generalize startOf release part = start
  have ⟨file, received⟩ := start
  simp only
  split
  case isTrue =>
    cases fetch release.size file received a
    case none => rfl
    case some fetched =>
      have ⟨part', result⟩ := fetched
      cases result <;> rfl
  case isFalse => rfl

omit [DecidableEq H] in
theorem startOf_cases (release : Release H) (part : Option Bytes) :
    (∃ file, startOf release part = (some file, release.size) ∧ file.length = release.size) ∨
    (startOf release part).2 < release.size ∧
      Counted release.size (startOf release part).1 (startOf release part).2 := by
  rw [startOf, resumePlan]
  by_cases hz : (part.map (·.length)).getD 0 = 0
  case pos =>
    simp only [hz, if_true]
    exact .inr ⟨release.size_pos, within_none, fun h => absurd h (Nat.lt_irrefl 0)⟩
  case neg =>
    cases part
    case none => exact absurd rfl hz
    case some file =>
      simp only [Option.map_some, Option.getD_some] at hz ⊢
      rw [if_neg hz]
      by_cases he : file.length = release.size
      case pos => exact .inl ⟨file, by rw [if_pos he], he⟩
      case neg =>
        rw [if_neg he]
        by_cases hl : file.length < release.size
        case pos =>
          rw [if_pos hl]
          exact .inr ⟨hl, within_some hl.le, fun _ => ⟨file, rfl, rfl⟩⟩
        case neg =>
          rw [if_neg hl]
          exact .inr ⟨release.size_pos, within_none, fun h => absurd h (Nat.lt_irrefl 0)⟩

-- What a call gives.
structure Settled (sha256 : Bytes → H) (release : Release H) (part : Option Bytes)
    (result : Except String Unit) : Prop where
  within : Within release.size part
  ok     : result = .ok () → ∃ file, part = some file ∧ file.length = release.size ∧
    sha256 file = release.sha256

omit [DecidableEq H] in
theorem settled_error (h : Within release.size part) {err : String} :
    Settled sha256 release part (.error err) where
  within := h
  ok     := nofun

theorem settled_verify (h : Within release.size part) {reads : Bool} :
    Settled sha256 release (verify sha256 release part reads).1
      (verify sha256 release part reads).2 where
  within := verify_within h
  ok     := verify_ok

theorem download_settled (sha256 : Bytes → H) (release : Release H) (part : Option Bytes)
    (a : Attempt) : ∃ part' result, download sha256 release part a = some (part', result) ∧
      Settled sha256 release part' result := by
  rw [download_eq]
  rcases startOf_cases release part with ⟨file, hs, hl⟩ | ⟨hlt, hc⟩
  · rw [hs, if_neg (Nat.lt_irrefl _), Option.map_some]
    exact ⟨_, _, rfl, settled_verify (within_some hl.le)⟩
  · have ⟨part', result, hf, hw⟩ := fetch_within release.size_le hc a
    rw [if_pos hlt, hf, Option.map_some]
    cases result
    case error => exact ⟨_, _, rfl, settled_error hw⟩
    case ok => exact ⟨_, _, rfl, settled_verify hw⟩

variable {signed : Bytes}

-- A call that's served settles the release, or there's nothing left that it could be held up by.
theorem download_served (sha256 : Bytes → H) (h : Serves signed a)
    (hl : signed.length = release.size) (part : Option Bytes) : ∃ part' result,
      download sha256 release part a = some (part', result) ∧
        (result = .ok () ∨ part' = none) := by
  rw [download_eq]
  rcases startOf_cases release part with ⟨file, hs, hf⟩ | ⟨hlt, hc⟩
  · rw [hs, if_neg (Nat.lt_irrefl _), Option.map_some]
    exact ⟨_, _, rfl, verify_full hf⟩
  · have ⟨file, hf, hfl⟩ := fetch_served h hl release.size_le hc hlt
    rw [if_pos hlt, hf, Option.map_some]
    exact ⟨_, _, rfl, verify_full hfl⟩

theorem download_none_served (h : Serves signed a) (hl : signed.length = release.size)
    (hh : sha256 signed = release.sha256) :
    download sha256 release none a = some (some signed, .ok ()) := by
  have hs : startOf release none = (none, 0) := rfl
  rw [download_eq, hs, if_pos (Nat.lt_of_lt_of_le Nat.zero_lt_one release.size_pos),
    fetch_whole h hl release.size_le, Option.map_some]
  simp only [h.reads, verify_signed hh hl]

-- A download is exactly the signed bytes, whatever is there and whatever is answered, and it takes
-- two calls at most where they are served.
theorem download_exact (hl : signed.length = release.size) (hh : sha256 signed = release.sha256)
    (hcollision : ∀ bytes, sha256 bytes = sha256 signed → bytes = signed) :
    (∀ part a, ∃ part' result, download sha256 release part a = some (part', result) ∧
      (result = .ok () → ∃ file, part' = some file ∧ file.length = release.size ∧
        sha256 file = release.sha256 ∧ file = signed) ∧
      (result ≠ .ok () → ∀ file, part' = some file → file.length ≤ release.size)) ∧
    ∀ part a₁ a₂, Serves signed a₁ → Serves signed a₂ → ∃ part₁ result₁,
      download sha256 release part a₁ = some (part₁, result₁) ∧
      (result₁ = .ok () ∨ ∃ part₂, download sha256 release part₁ a₂ = some (part₂, .ok ())) := by
  refine ⟨fun part a => ?_, fun part a₁ a₂ h₁ h₂ => ?_⟩
  · have ⟨part', result, hd, hs⟩ := download_settled sha256 release part a
    refine ⟨part', result, hd, fun hr => ?_, fun _ => hs.within⟩
    have ⟨file, hf, hlen, hsha⟩ := hs.ok hr
    exact ⟨file, hf, hlen, hsha, hcollision file (hsha.trans hh.symm)⟩
  · have ⟨part₁, result₁, hd, ho⟩ := download_served sha256 h₁ hl part
    refine ⟨part₁, result₁, hd, ho.imp_right fun hn => ?_⟩
    subst hn
    exact ⟨_, download_none_served h₂ hl hh⟩

def abc : Bytes := [97, 98, 99]

-- The SHA-256 of "abc", and something else for other bytes.
def abcHash (bytes : Bytes) : Bytes :=
  if bytes = abc then
    [0xba, 0x78, 0x16, 0xbf, 0x8f, 0x01, 0xcf, 0xea, 0x41, 0x41, 0x40, 0xde, 0x5d, 0xae, 0x22,
      0x23, 0xb0, 0x03, 0x61, 0xa3, 0x96, 0x17, 0x7a, 0x9c, 0xb4, 0x10, 0xff, 0x61, 0xf2, 0x00,
      0x15, 0xad]
  else 0 :: bytes

def abcRelease : Release Bytes := ⟨abcHash abc, 3, by decide, by decide⟩

-- A server that honours the range, with the bytes one by one.
def abcServer : Attempt where
  serve
    | none       => .response 200 none (abc.map fun byte => .chunk [byte])
    | some start =>
      .response 206 (some (partOf start "2/3")) ((abc.drop start).map fun byte => .chunk [byte])

theorem sends_bytes (bytes : Bytes) : Sends bytes (bytes.map fun byte => .chunk [byte]) :=
  ⟨bytes.map fun byte => [byte], by rw [List.map_map]; rfl, by simp [←List.flatMap_def]⟩

theorem abcServer_serves : Serves abc abcServer where
  opens        := rfl
  syncs        := rfl
  reads        := rfl
  whole        := ⟨_, _, rfl, sends_bytes abc⟩
  ranged _     := .inr ⟨_, _, rfl, sends_bytes _⟩

-- A part file with other bytes takes a second call.
theorem download_exact_abc : ∃ part₁ result₁,
    download abcHash abcRelease (some [0]) abcServer = some (part₁, result₁) ∧
    (result₁ = .ok () ∨
      ∃ part₂, download abcHash abcRelease part₁ abcServer = some (part₂, .ok ())) :=
  (download_exact (show abc.length = abcRelease.size from rfl)
    (show abcHash abc = abcRelease.sha256 from rfl) fun bytes h => by
      by_contra hn
      rw [abcHash, if_neg hn] at h
      cases h).right _ _ _ abcServer_serves abcServer_serves

example : download abcHash abcRelease (some [0]) abcServer =
    some (none, .error "[update:verify] The update does not match its signed hash") := by
  decide +kernel

end Update
