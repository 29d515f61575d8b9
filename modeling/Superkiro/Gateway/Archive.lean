import Superkiro.Lib.JsonText
import Superkiro.Lib.Utf8

namespace Json

-- The length of a value as it's written, in bytes.
def size (j : Json) : Nat := Text.len j.compact

-- Changes what's under a key, if there is something.
def modifyField (key : String) (f : Json → Json) : List (String × Json) → List (String × Json)
  | []            => []
  | (k, v) :: fs => if k = key then (k, f v) :: fs else (k, v) :: modifyField key f fs

def modify (key : String) (f : Json → Json) : Json → Json
  | obj fields => obj (modifyField key f fields)
  | j          => j

end Json

namespace Gateway

open Json

def requestLimit : Nat := 4 * 1024 * 1024

def imageBytesMin : Nat := 1024

mutual

-- Replaces image data with its size, and counts how many images were reduced.
def stripImages : Json → Nat × Json
  | .obj fields => ((stripFields fields).1, .obj (stripFields fields).2)
  | .arr xs     => ((stripItems xs).1, .arr (stripItems xs).2)
  | j           => (0, j)

def stripItems : List Json → Nat × List Json
  | []      => (0, [])
  | x :: xs =>
    ((stripImages x).1 + (stripItems xs).1, (stripImages x).2 :: (stripItems xs).2)

def stripFields : List (String × Json) → Nat × List (String × Json)
  | []               => (0, [])
  | (key, v) :: fs =>
    let (count, v) :=
      match v with
      | .str text =>
        if key = "bytes" && imageBytesMin < Text.len text then
          (1, .str s!"[图片已省略：{Text.len text * 3 / 4 / 1024} KB]")
        else (0, .str text)
      | other     => stripImages other
    (count + (stripFields fs).1, (key, v) :: (stripFields fs).2)

end

-- The entries of a request's history, if it has one.
def historyOf (request : Json) : Option (List Json) :=
  ((request.get? "conversationState").bind (·.get? "history")).bind (·.asArr?)

def withHistory (request : Json) (history : List Json) : Json :=
  request.modify "conversationState" (·.modify "history" fun _ => .arr history)

-- How many entries are dropped, and which size is left by then.
def dropOldest (size : Nat) : List Nat → Nat × Nat
  | []             => (0, size)
  | entry :: rest =>
    if requestLimit < size then
      ((dropOldest (size - entry) rest).1 + 1, (dropOldest (size - entry) rest).2)
    else (0, size)

def tooLarge : Json := .obj [("tooLarge", .bool true)]

-- A request that's parsed, without images, and what was left out of it.
def keepRequest (omittedImages : Nat) (request : Json) : Json × Json :=
  let size := request.size
  let (request, omittedHistory, size) :=
    if requestLimit < size then
      match historyOf request with
      | some history =>
        let (omitted, size) := dropOldest size (history.map fun entry => entry.size + 1)
        (withHistory request (history.drop omitted), omitted, size)
      | none => (request, 0, size)
    else (request, 0, size)
  let truncated := decide (requestLimit < size)
  (if truncated then tooLarge else request,
    .obj [("omittedHistoryEntries", .num omittedHistory), ("omittedImages", .num omittedImages),
      ("truncated", .bool truncated)])

-- The request to keep, and what was left out of it.
def prepareRequest (parse : List UInt8 → Option Json) (body : List UInt8) : Json × Json :=
  match parse body with
  | none =>
    (.obj [("unparsed", .str (.fromUtf8Lossy (body.take (64 * 1024))))],
      .obj [("unparsed", .bool true)])
  | some request => keepRequest (stripImages request).1 (stripImages request).2

end Gateway

namespace Json

variable {key : String} {f : Json → Json} {fields : List (String × Json)} {j v : Json}

theorem len_foldl_join {sep t : String} {ts : List String} :
    Text.len (ts.foldl (fun joined s => joined ++ sep ++ s) t) =
      Text.len t + (ts.map fun s => Text.len sep + Text.len s).sum := by
  induction ts generalizing t
  case nil => simp
  case cons s ts hi =>
    rw [List.foldl_cons, hi, List.map_cons, List.sum_cons]
    simp only [Text.len, String.utf8ByteSize_append]
    omega

-- What's written between separators, with a separator for each but one.
theorem len_join (sep : String) (ts : List String) : Text.len (Text.join sep ts) +
    (if ts = [] then 0 else Text.len sep) = (ts.map fun s => Text.len sep + Text.len s).sum := by
  cases ts
  case nil => simp [Text.join, Text.len]
  case cons t ts =>
    rw [Text.join, len_foldl_join, if_neg (List.cons_ne_nil _ _), List.map_cons, List.sum_cons]
    omega

theorem compactItems_eq (xs : List Json) : compactItems xs = xs.map compact := by
  induction xs
  case nil => rfl
  case cons x xs hi => rw [compactItems, hi, List.map_cons]

-- A list takes a separator for each of its entries, one of which isn't written.
theorem size_arr (xs : List Json) :
    (arr xs).size + (if xs = [] then 0 else 1) = 2 + (xs.map fun x => x.size + 1).sum := by
  have h := len_join "," (compactItems xs)
  have hc : (arr xs).size = 2 + Text.len (Text.join "," (compactItems xs)) := by
    simp only [size, compact, Text.len, String.utf8ByteSize_append]
    have ho : "[".utf8ByteSize = 1 := rfl
    have hc : "]".utf8ByteSize = 1 := rfl
    omega
  have hs : (compactItems xs).map (fun s => Text.len "," + Text.len s) =
      xs.map fun x => x.size + 1 := by
    rw [compactItems_eq, List.map_map]
    exact List.map_congr_left fun x _ => Nat.add_comm _ _
  have hn : compactItems xs = [] ↔ xs = [] := by rw [compactItems_eq, List.map_eq_nil_iff]
  have hl : Text.len "," = 1 := rfl
  rw [hs] at h
  simp only [hn, hl] at h
  omega

def fieldText (field : String × Json) : String := quote field.1 ++ ":" ++ field.2.compact

theorem compactFields_eq (fields : List (String × Json)) :
    compactFields fields = fields.map fieldText := by
  induction fields
  case nil => rfl
  case cons field fields hi => rw [compactFields, hi, List.map_cons, fieldText]

theorem len_fieldText (field : String × Json) :
    Text.len (fieldText field) = Text.len (quote field.1 ++ ":") + field.2.size := by
  simp only [fieldText, size, Text.len, String.utf8ByteSize_append]

-- The fields of an object take a separator each, one of which isn't written.
theorem size_obj (fields : List (String × Json)) :
    (obj fields).size + (if fields = [] then 0 else 1) =
      2 + (fields.map fun field => Text.len (fieldText field) + 1).sum := by
  have h := len_join "," (compactFields fields)
  have hc : (obj fields).size = 2 + Text.len (Text.join "," (compactFields fields)) := by
    simp only [size, compact, Text.len, String.utf8ByteSize_append]
    have ho : "\x7b".utf8ByteSize = 1 := rfl
    have hc : "\x7d".utf8ByteSize = 1 := rfl
    omega
  have hs : (compactFields fields).map (fun s => Text.len "," + Text.len s) =
      fields.map fun field => Text.len (fieldText field) + 1 := by
    rw [compactFields_eq, List.map_map]
    exact List.map_congr_left fun x _ => Nat.add_comm _ _
  have hn : compactFields fields = [] ↔ fields = [] := by
    rw [compactFields_eq, List.map_eq_nil_iff]
  have hl : Text.len "," = 1 := rfl
  rw [hs] at h
  simp only [hn, hl] at h
  omega

theorem modifyField_eq_nil : modifyField key f fields = [] ↔ fields = [] := by
  cases fields
  case nil => rfl
  case cons field fields =>
    rw [modifyField]
    split <;> simp

theorem sum_modifyField (h : (fields.find? (·.1 = key)).map (·.2) = some v) :
    ((modifyField key f fields).map fun field => Text.len (fieldText field) + 1).sum + v.size =
      (fields.map fun field => Text.len (fieldText field) + 1).sum + (f v).size := by
  induction fields
  case nil => cases h
  case cons field fields hi =>
    have ⟨k, w⟩ := field
    rw [modifyField]
    split
    case isTrue hk =>
      rw [List.find?_cons_of_pos (by simpa using hk)] at h
      have hv : w = v := by simpa using h
      simp only [List.map_cons, List.sum_cons, len_fieldText, hv]
      omega
    case isFalse hk =>
      rw [List.find?_cons_of_neg (by simpa using hk)] at h
      have := hi h
      simp only [List.map_cons, List.sum_cons]
      omega

-- A change in one place changes the size by as much as it changes what's there.
theorem size_modify (h : j.get? key = some v) :
    (j.modify key f).size + v.size = j.size + (f v).size := by
  cases j
  case obj fields =>
    have hs := sum_modifyField (f := f) h
    have ho := size_obj fields
    have hm := size_obj (modifyField key f fields)
    simp only [modifyField_eq_nil] at hm
    rw [modify]
    omega
  all_goals cases h

theorem size_modify_pos : 0 < ((obj fields).modify key f).size := by
  have h := size_obj (modifyField key f fields)
  rw [modify]
  split at h <;> omega

theorem modifyField_same (h : (fields.find? (·.1 = key)).map (·.2) = some v) (hf : f v = v) :
    modifyField key f fields = fields := by
  induction fields
  case nil => rfl
  case cons field fields hi =>
    have ⟨k, w⟩ := field
    rw [modifyField]
    split
    case isTrue hk =>
      rw [List.find?_cons_of_pos (by simpa using hk)] at h
      have hv : w = v := by simpa using h
      rw [hv, hf]
    case isFalse hk =>
      rw [List.find?_cons_of_neg (by simpa using hk)] at h
      rw [hi h]

theorem modify_same (h : j.get? key = some v) (hf : f v = v) : j.modify key f = j := by
  cases j
  case obj => rw [modify, modifyField_same h hf]
  all_goals rfl

end Json

namespace Gateway

open Json

variable {request : Json} {history : List Json}

theorem historyOf_eq_some (h : historyOf request = some history) : ∃ state,
    request.get? "conversationState" = some state ∧ state.get? "history" = some (.arr history) := by
  simp only [historyOf, Option.bind_eq_some_iff] at h
  have ⟨xs, ⟨state, hs, hx⟩, ha⟩ := h
  cases xs
  case arr xs =>
    injection ha with ha
    exact ⟨state, hs, ha ▸ hx⟩
  all_goals cases ha

theorem size_withHistory (h : historyOf request = some history) (entries : List Json) :
    (withHistory request entries).size + (arr history).size =
      request.size + (arr entries).size := by
  have ⟨state, hs, hx⟩ := historyOf_eq_some h
  have ho := size_modify (f := (·.modify "history" fun _ => .arr entries)) hs
  have hi := size_modify (f := fun _ => .arr entries) hx
  rw [withHistory]
  omega

theorem withHistory_same (h : historyOf request = some history) :
    withHistory request history = request := by
  have ⟨state, hs, hx⟩ := historyOf_eq_some h
  exact modify_same hs (modify_same hx rfl)

-- Entries are dropped as long as what's left is too large, one after the other.
theorem dropOldest_spec (base : Nat) (sizes : List Nat) :
    (dropOldest (base + sizes.sum) sizes).1 ≤ sizes.length ∧
    (dropOldest (base + sizes.sum) sizes).2 =
      base + (sizes.drop (dropOldest (base + sizes.sum) sizes).1).sum ∧
    ((dropOldest (base + sizes.sum) sizes).1 < sizes.length →
      (dropOldest (base + sizes.sum) sizes).2 ≤ requestLimit) ∧
    (0 < (dropOldest (base + sizes.sum) sizes).1 → requestLimit <
      base + (sizes.drop ((dropOldest (base + sizes.sum) sizes).1 - 1)).sum) := by
  induction sizes
  case nil => simp [dropOldest]
  case cons entry rest hi =>
    rw [dropOldest]
    split
    case isFalse h =>
      exact ⟨Nat.zero_le _, rfl, fun _ => Nat.not_lt.mp h, fun h => absurd h (Nat.lt_irrefl 0)⟩
    case isTrue h =>
      have hs : base + (entry :: rest).sum - entry = base + rest.sum := by
        rw [List.sum_cons]
        omega
      rw [hs]
      have ⟨hl, he, hr, hb⟩ := hi
      refine ⟨Nat.succ_le_succ hl, he, fun h => hr (Nat.lt_of_succ_lt_succ h), fun _ => ?_⟩
      cases ho : (dropOldest (base + rest.sum) rest).1
      case zero => simpa using h
      case succ n =>
        rw [ho] at hb
        simpa using hb (Nat.succ_pos n)

-- A request as it's without any entry of its history.
def withoutHistory (request : Json) : Json :=
  match historyOf request with
  | some _ => withHistory request []
  | none   => request

-- Whether what's kept of a request is within the limit, with the longest recent history that fits.
structure Kept (request kept notes : Json) : Prop where
  size    : kept.size ≤ requestLimit
  history : notes.get? "truncated" = some (.bool false) → ∀ history,
    historyOf request = some history → ∃ omitted : Nat, omitted ≤ history.length ∧
      notes.get? "omittedHistoryEntries" = some (.num omitted) ∧
      kept = withHistory request (history.drop omitted) ∧
      (0 < omitted → requestLimit < (withHistory request (history.drop (omitted - 1))).size)
  whole   : notes.get? "truncated" = some (.bool false) → historyOf request = none →
    kept = request ∧ notes.get? "omittedHistoryEntries" = some (.num 0)
  marker  : notes.get? "truncated" ≠ some (.bool false) →
    kept = tooLarge ∧ requestLimit < (withoutHistory request).size

def notesOf (omittedHistory omittedImages : Nat) (truncated : Bool) : Json :=
  .obj [("omittedHistoryEntries", .num omittedHistory), ("omittedImages", .num omittedImages),
    ("truncated", .bool truncated)]

theorem truncated_notesOf {n m : Nat} {b : Bool} :
    (notesOf n m b).get? "truncated" = some (.bool b) := rfl

theorem omitted_notesOf {n m : Nat} {b : Bool} :
    (notesOf n m b).get? "omittedHistoryEntries" = some (.num n) := rfl

theorem size_tooLarge : tooLarge.size ≤ requestLimit := by decide +kernel

variable {m n : Nat} {kept : Json}

-- The marker stands for requests that are too large without history.
theorem kept_marker (h : requestLimit < (withoutHistory request).size) :
    Kept request tooLarge (notesOf n m true) where
  size          := size_tooLarge
  history h     := by cases h
  whole h       := by cases h
  marker _      := ⟨rfl, h⟩

theorem kept_whole (h : historyOf request = none) (hs : request.size ≤ requestLimit) :
    Kept request request (notesOf 0 m false) where
  size                := hs
  history _ xs hx     := by rw [h] at hx; cases hx
  whole _ _           := ⟨rfl, rfl⟩
  marker hn           := absurd rfl hn

-- What's kept where entries are dropped.
theorem kept_history_iff (h : historyOf request = some history) (hn : n ≤ history.length)
    (hb : 0 < n → requestLimit < (withHistory request (history.drop (n - 1))).size) :
    Kept request (withHistory request (history.drop n)) (notesOf n m false) ↔
      (withHistory request (history.drop n)).size ≤ requestLimit := by
  refine ⟨fun hk => hk.size, fun hs => ⟨hs, fun _ xs hx => ?_, fun _ hw => ?_, fun ht => ?_⟩⟩
  · rw [h] at hx
    injection hx with hx
    subst hx
    exact ⟨n, hn, rfl, rfl, hb⟩
  · rw [h] at hw
    cases hw
  · exact absurd rfl ht

theorem keepRequest_small (h : ¬ requestLimit < request.size) :
    keepRequest m request = (request, notesOf 0 m false) := by
  simp [keepRequest, notesOf, h]

theorem keepRequest_none (h : requestLimit < request.size) (hx : historyOf request = none) :
    keepRequest m request = (tooLarge, notesOf 0 m true) := by
  simp [keepRequest, notesOf, h, hx]

theorem keepRequest_some {d : Nat × Nat} (h : requestLimit < request.size)
    (hx : historyOf request = some history)
    (hd : dropOldest request.size (history.map fun entry => entry.size + 1) = d) :
    keepRequest m request = if requestLimit < d.2 then (tooLarge, notesOf d.1 m true)
      else (withHistory request (history.drop d.1), notesOf d.1 m false) := by
  by_cases ht : requestLimit < d.2
  case pos => simp [keepRequest, notesOf, h, hx, hd, ht]
  case neg => simp [keepRequest, notesOf, h, hx, hd, ht]

-- The size of a request is what it takes without history, and each entry with a separator, one of
-- which isn't written.
theorem size_entries (h : historyOf request = some history) {entries : List Json}
    (hn : entries ≠ []) : (withHistory request entries).size =
      ((withoutHistory request).size - 1) + (entries.map fun entry => entry.size + 1).sum := by
  have hw : withoutHistory request = withHistory request [] := by rw [withoutHistory, h]
  have he := size_withHistory h entries
  have hz := size_withHistory h []
  have ha := size_arr entries
  have ha' := size_arr []
  rw [if_neg hn] at ha
  rw [if_pos rfl, List.map_nil, List.sum_nil] at ha'
  have hp : 1 ≤ (withHistory request []).size := by
    have ⟨state, hs, _⟩ := historyOf_eq_some h
    cases request
    case obj => exact size_modify_pos
    all_goals cases hs
  rw [hw]
  omega

theorem withoutHistory_none (h : historyOf request = none) : withoutHistory request = request := by
  rw [withoutHistory, h]

theorem withoutHistory_some (h : historyOf request = some history) :
    withoutHistory request = withHistory request [] := by
  rw [withoutHistory, h]

theorem sum_sizes_pos {entries : List Json} (h : entries ≠ []) :
    0 < (entries.map fun entry => entry.size + 1).sum := by
  cases entries
  case nil => contradiction
  case cons => rw [List.map_cons, List.sum_cons]; omega

theorem kept_small (h : ¬ requestLimit < request.size) :
    Kept request request (notesOf 0 m false) := by
  cases hx : historyOf request
  case none => exact kept_whole hx (Nat.not_lt.mp h)
  case some history =>
    have hs := withHistory_same hx
    have hk := (kept_history_iff (m := m) hx (Nat.zero_le _) nofun).mpr
      (by rw [List.drop_zero, hs]; exact Nat.not_lt.mp h)
    rwa [List.drop_zero, hs] at hk

-- The running size misses what's kept by one where every entry is dropped.
theorem keepRequest_some_kept_iff (hlt : requestLimit < request.size)
    (hx : historyOf request = some history) (hn : history ≠ []) :
    Kept request (keepRequest m request).1 (keepRequest m request).2 ↔
      (withoutHistory request).size ≠ requestLimit + 1 := by
  have hsize := size_entries hx hn
  rw [withHistory_same hx] at hsize
  have ⟨hl, he, hr, hb⟩ := dropOldest_spec ((withoutHistory request).size - 1)
    (history.map fun entry => entry.size + 1)
  rw [←hsize] at hl he hr hb
  generalize hd : dropOldest request.size (history.map fun entry => entry.size + 1) = d
    at hl he hr hb
  rw [keepRequest_some hlt hx hd]
  rw [List.length_map] at hl hr
  rw [←List.map_drop] at he
  simp only [←List.map_drop] at hb
  have hprev (h : 0 < d.1) :
      requestLimit < (withHistory request (history.drop (d.1 - 1))).size := by
    rw [size_entries hx (by rw [ne_eq, List.drop_eq_nil_iff]; omega)]
    exact hb h
  by_cases hlen : d.1 = history.length
  case pos =>
    have hall : history.drop d.1 = [] := List.drop_eq_nil_iff.mpr hlen.ge
    rw [hall, List.map_nil, List.sum_nil] at he
    by_cases ht : requestLimit < d.2
    case pos =>
      rw [if_pos ht]
      exact iff_of_true (kept_marker (by omega)) (by omega)
    case neg =>
      rw [if_neg ht, kept_history_iff hx hl hprev, hall, ←withoutHistory_some hx]
      omega
  case neg =>
    have hall : history.drop d.1 ≠ [] := by rw [ne_eq, List.drop_eq_nil_iff]; omega
    have hfit := hr (by omega)
    have hpos := sum_sizes_pos hall
    rw [if_neg (Nat.not_lt.mpr hfit), kept_history_iff hx hl hprev, size_entries hx hall]
    exact iff_of_true (by omega) (by omega)

theorem keepRequest_kept_iff (omittedImages : Nat) (request : Json) :
    Kept request (keepRequest omittedImages request).1 (keepRequest omittedImages request).2 ↔
      ∀ history, historyOf request = some history → history ≠ [] →
        (withoutHistory request).size ≠ requestLimit + 1 := by
  by_cases hlt : requestLimit < request.size
  case neg =>
    rw [keepRequest_small hlt]
    refine iff_of_true (kept_small hlt) fun history hx hn => ?_
    have hsize := size_entries hx hn
    have hpos := sum_sizes_pos hn
    rw [withHistory_same hx] at hsize
    omega
  case pos =>
    cases hx : historyOf request
    case none =>
      rw [keepRequest_none hlt hx]
      exact iff_of_true (kept_marker (by rwa [withoutHistory_none hx])) (fun _ h => nomatch h)
    case some history =>
      by_cases hn : history = []
      case neg =>
        rw [keepRequest_some_kept_iff hlt hx hn]
        constructor
        · intro h xs hxs _
          exact h
        · intro h
          exact h history rfl hn
      case pos =>
        subst hn
        have hw : request.size = (withoutHistory request).size := by
          rw [withoutHistory_some hx, withHistory_same hx]
        rw [keepRequest_some (d := (0, request.size)) hlt hx rfl, if_pos hlt]
        refine iff_of_true (kept_marker (by omega)) fun xs hxs hn => ?_
        injection hxs with hxs
        exact absurd hxs.symm hn

theorem prepareRequest_parsed {parse : List UInt8 → Option Json} {body : List UInt8}
    (h : parse body = some request) : prepareRequest parse body =
      keepRequest (stripImages request).1 (stripImages request).2 := by
  rw [prepareRequest, h]

-- What's kept of a body is right, unless the request takes one byte more than the limit without
-- the history it has.
theorem prepareRequest_kept_iff {parse : List UInt8 → Option Json} {body : List UInt8}
    (h : parse body = some request) :
    Kept (stripImages request).2 (prepareRequest parse body).1 (prepareRequest parse body).2 ↔
      ∀ history, historyOf (stripImages request).2 = some history → history ≠ [] →
        (withoutHistory (stripImages request).2).size ≠ requestLimit + 1 := by
  rw [prepareRequest_parsed h]
  exact keepRequest_kept_iff _ _

-- A parser that knows a single request.
def parseOnly (request : Json) (body : List UInt8) : Option Json :=
  if body = request.compact.utf8 then some request else none

theorem parseOnly_compact (request : Json) :
    parseOnly request request.compact.utf8 = some request :=
  if_pos rfl

def smallRequest : Json := .obj [("conversationState", .obj [("history", .arr [.num 1, .num 2])])]

theorem prepareRequest_kept_small : Kept (stripImages smallRequest).2
    (prepareRequest (parseOnly smallRequest) smallRequest.compact.utf8).1
    (prepareRequest (parseOnly smallRequest) smallRequest.compact.utf8).2 :=
  (prepareRequest_kept_iff (parseOnly_compact smallRequest)).mpr fun _ _ _ => by decide +kernel

-- A request whose size can be set as needed.
def paddedRequest (n : Nat) : Json :=
  .obj [("conversationState", .obj [("history", .arr [.num 1])]),
    ("rest", .arr (.replicate n .null))]

theorem stripItems_nulls (n : Nat) :
    stripItems (List.replicate n .null) = (0, List.replicate n .null) := by
  induction n
  case zero => rfl
  case succ n hi => simp [List.replicate_succ, stripItems, hi, stripImages]

theorem stripImages_padded (n : Nat) :
    stripImages (paddedRequest n) = (0, paddedRequest n) := by
  simp [paddedRequest, stripImages, stripFields, stripItems, stripItems_nulls]

theorem size_nulls (n : Nat) : (arr (List.replicate (n + 1) .null)).size = 5 * n + 6 := by
  have h := size_arr (List.replicate (n + 1) .null)
  have hn : null.size = 4 := by decide +kernel
  rw [if_neg (by simp), List.map_replicate, List.sum_replicate, hn, smul_eq_mul] at h
  omega

theorem size_padded (n : Nat) : (withoutHistory (paddedRequest (n + 1))).size = 5 * n + 50 := by
  have h := size_obj
    [("conversationState", .obj [("history", .arr [])]), ("rest", .arr (.replicate (n + 1) .null))]
  have hs : Text.len (fieldText ("conversationState", .obj [("history", .arr [])])) = 34 := by
    decide +kernel
  have hr : Text.len (quote "rest" ++ ":") = 7 := by decide +kernel
  have hw : withoutHistory (paddedRequest (n + 1)) = .obj
    [("conversationState", .obj [("history", .arr [])]),
      ("rest", .arr (.replicate (n + 1) .null))] := rfl
  rw [if_neg (List.cons_ne_nil _ _)] at h
  simp only [List.map_cons, List.map_nil, List.sum_cons, List.sum_nil, hs] at h
  rw [len_fieldText, size_nulls, hr] at h
  rw [hw]
  omega

-- With its one entry dropped, a request is kept that's over the limit.
theorem prepareRequest_keeps_tooMuch : ¬ Kept (stripImages (paddedRequest 838852)).2
    (prepareRequest (parseOnly (paddedRequest 838852)) (paddedRequest 838852).compact.utf8).1
    (prepareRequest (parseOnly (paddedRequest 838852)) (paddedRequest 838852).compact.utf8).2 := by
  rw [prepareRequest_parsed (parseOnly_compact _), stripImages_padded, keepRequest_kept_iff]
  intro h
  exact h [.num 1] rfl (List.cons_ne_nil _ _) (size_padded 838851)

end Gateway
