import Superkiro.Wire.Frame

namespace Wire

variable {data rest hb payload : Bytes} {name : String} {value : HeaderValue} {headers : Headers}

theorem need_of_le (h : n ≤ data.length) : need n data = .ok () := by
  simp [need, Except.ensure, h]

theorem be16_encode {v : UInt16} : be16 (BigEndian.encode 2 v.toNat ++ rest) = v := by
  rw [be16, BigEndian.decode_take v.toNat_lt, UInt16.ofNat_toNat]

theorem be32_encode {v : UInt32} : be32 (BigEndian.encode 4 v.toNat ++ rest) = v := by
  rw [be32, BigEndian.decode_take v.toNat_lt, UInt32.ofNat_toNat]

theorem be64_encode {v : UInt64} : be64 (BigEndian.encode 8 v.toNat ++ rest) = v := by
  rw [be64, BigEndian.decode_take v.toNat_lt, UInt64.ofNat_toNat]

theorem toNat_be16 (h : n < 2 ^ 16) : (be16 (BigEndian.encode 2 n ++ rest)).toNat = n := by
  rw [be16, BigEndian.decode_take h, UInt16.toNat_ofNat_of_lt' h]

theorem toNat_be32 (h : n < 2 ^ 32) : (be32 (BigEndian.encode 4 n ++ rest)).toNat = n := by
  rw [be32, BigEndian.decode_take h, UInt32.toNat_ofNat_of_lt' h]

theorem length_withCrc : (withCrc data).length = data.length + 4 := by
  simp [withCrc]

theorem length_wrap : (wrap hb payload).length = 16 + hb.length + payload.length := by
  simp only [wrap, length_withCrc, List.length_append, BigEndian.length_encode]
  omega

-- Bytes that have their length, and the checksums of what's before them, where a message has them.
structure Sealed (bytes : Bytes) : Prop where
  total    : totalLength bytes = bytes.length
  lengths  : crc32 (bytes.take 8) = be32 (bytes.drop 8)
  contents : crc32 (bytes.take (bytes.length - 4)) = be32 (bytes.drop (bytes.length - 4))

theorem sealed_wrap (h : (wrap hb payload).length < 2 ^ 32) : Sealed (wrap hb payload) := by
  have hlen : (wrap hb payload).length = 16 + hb.length + payload.length := length_wrap
  let lengths := BigEndian.encode 4 (12 + hb.length + payload.length + 4) ++
    BigEndian.encode 4 hb.length
  let body := withCrc lengths ++ hb ++ payload
  have hl : lengths.length = 8 := by simp [lengths]
  have hw : wrap hb payload = lengths ++ (BigEndian.encode 4 (crc32 lengths).toNat ++
      (hb ++ payload ++ BigEndian.encode 4 (crc32 body).toNat)) := by
    simp [wrap, withCrc, body, lengths]
  have hc : wrap hb payload = body ++ BigEndian.encode 4 (crc32 body).toNat := rfl
  have hbl : body.length = (wrap hb payload).length - 4 := by
    simp only [hc, List.length_append, BigEndian.length_encode, Nat.add_sub_cancel]
  constructor
  case total =>
    rw [hlen, hw, totalLength, List.append_assoc, toNat_be32 (by omega)]
    omega
  case lengths => rw [hw, List.take_left' hl, List.drop_left' hl, be32_encode]
  case contents =>
    rw [← hbl, hc, List.take_left, List.drop_left, ← List.append_nil (BigEndian.encode ..), be32_encode]

-- The fields of a frame that was written are as a message's should be, whatever follows it.
theorem parsePrelude_wrap (h : (wrap hb payload).length ≤ maxMessageSize) :
    parsePrelude (wrap hb payload ++ rest) = .ok (some (wrap hb payload).length) := by
  have hmax : maxMessageSize < 2 ^ 32 := by decide
  have hs := sealed_wrap (Nat.lt_of_le_of_lt h hmax)
  have hmin : 16 ≤ (wrap hb payload).length := by
    rw [length_wrap]
    omega
  have hd : Delimits (wrap hb payload) (wrap hb payload).length := ⟨hs.total, hmin, h, hs.lengths⟩
  refine parsePrelude_eq_some.mpr ⟨hd.append ?_, ?_⟩
  · exact Nat.le_trans (by decide) hmin
  · rw [List.length_append]
    exact Nat.le_add_right _ _

theorem parseMessage_wrap (h : (wrap hb payload).length ≤ maxMessageSize) :
    parseMessage (wrap hb payload) =
      (parseHeaders hb hb.length).map fun headers => ⟨headers, payload⟩ := by
  have hmax : maxMessageSize < 2 ^ 32 := by decide
  have hlen : (wrap hb payload).length = 16 + hb.length + payload.length := length_wrap
  let lengths := BigEndian.encode 4 (12 + hb.length + payload.length + 4) ++
    BigEndian.encode 4 hb.length
  let body := withCrc lengths ++ hb ++ payload
  have hw : wrap hb payload = body ++ BigEndian.encode 4 (crc32 body).toNat := rfl
  have hp : (withCrc lengths).length = 12 := by simp [lengths, length_withCrc]
  have hph : (withCrc lengths ++ hb).length = 12 + hb.length := by rw [List.length_append, hp]
  have hbl : body.length = (wrap hb payload).length - 4 := by
    rw [List.length_append, hph]
    omega
  have htake : (wrap hb payload).take ((wrap hb payload).length - 4) = body := by
    rw [←hbl, hw, List.take_left]
  have hcrc : be32 ((wrap hb payload).drop ((wrap hb payload).length - 4)) = crc32 body := by
    rw [← (sealed_wrap (by omega)).contents, htake]
  have hheader : headerLength (wrap hb payload) = hb.length := by
    have he : (wrap hb payload).drop 4 = BigEndian.encode 4 hb.length ++
        (BigEndian.encode 4 (crc32 lengths).toNat ++ (hb ++ payload ++
          BigEndian.encode 4 (crc32 body).toNat)) := by
      simp only [hw, body, withCrc, lengths, List.append_assoc]
      exact List.drop_left' BigEndian.length_encode
    rw [headerLength, he, toNat_be32 (by omega)]
  have hheaders : (body.take (12 + hb.length)).drop 12 = hb := by
    rw [List.take_left' hph, List.drop_left' hp]
  have hpayload : body.drop (12 + hb.length) = payload := List.drop_left' hph
  simp only [parseMessage, htake, hcrc, hheader, preludeSize, hheaders, hpayload]
  rw [if_neg (by simp), if_neg (by omega)]
  cases parseHeaders hb hb.length <;> rfl

-- A frame is read by its own bytes, whatever follows it.
theorem parseFrame_wrap (h : (wrap hb payload).length ≤ maxMessageSize) :
    parseFrame (wrap hb payload ++ rest) =
      (parseHeaders hb hb.length).map fun headers =>
        some (⟨headers, payload⟩, (wrap hb payload).length) := by
  rw [parseFrame, parsePrelude_wrap h]
  simp only [bind, Except.bind, List.take_left, parseMessage_wrap h]
  cases parseHeaders hb hb.length <;> rfl

-- A value whose length the format can hold.
def HeaderValue.Fits : HeaderValue → Prop
  | .byteArray bytes => bytes.length ≤ maxValueLen
  | .string s        => s.utf8.length ≤ maxValueLen
  | _                => True

structure HeaderFits (name : String) (value : HeaderValue) : Prop where
  name_pos : 1 ≤ name.utf8.length
  name_le  : name.utf8.length ≤ maxNameLen
  value    : value.Fits

theorem parseSized_encode (h : data.length ≤ maxValueLen) :
    parseSized (encodeSized data ++ rest) = .ok data := by
  have hl : data.length < 2 ^ 16 := by
    rw [maxValueLen] at h
    omega
  have hd : (BigEndian.encode 2 data.length ++ (data ++ rest)).drop 2 = data ++ rest :=
    List.drop_left' BigEndian.length_encode
  simp only [encodeSized, List.take_of_length_le h, List.append_assoc]
  simp only [parseSized, toNat_be16 hl, hd, List.take_left]
  rw [need_of_le (by simp), need_of_le (by simp)]
  rfl

theorem length_encodeSized (h : data.length ≤ maxValueLen) :
    (encodeSized data).length = 2 + data.length := by
  simp [encodeSized, List.take_of_length_le h]

-- A value is read as the type that stands before it, and takes the bytes that were written.
theorem parseHeaderValue_encode (h : value.Fits) (rest : Bytes) : ∃ t tail type,
    encodeHeaderValue value = t :: tail ∧ HeaderValueType.tryFrom t = .ok type ∧
    parseHeaderValue (tail ++ rest) type = .ok (value, tail.length) := by
  cases value
  case bool v => cases v <;> exact ⟨_, _, _, rfl, rfl, rfl⟩
  case byte v =>
    refine ⟨_, _, _, rfl, rfl, ?_⟩
    rw [parseHeaderValue, need_of_le (by simp)]
    simp [bind, Except.bind]
  case short v =>
    refine ⟨_, _, _, rfl, rfl, ?_⟩
    rw [parseHeaderValue, need_of_le (by simp), be16_encode]
    simp [bind, Except.bind]
  case integer v =>
    refine ⟨_, _, _, rfl, rfl, ?_⟩
    rw [parseHeaderValue, need_of_le (by simp), be32_encode]
    simp [bind, Except.bind]
  case long v =>
    refine ⟨_, _, _, rfl, rfl, ?_⟩
    rw [parseHeaderValue, need_of_le (by simp), be64_encode]
    simp [bind, Except.bind]
  case timestamp v =>
    refine ⟨_, _, _, rfl, rfl, ?_⟩
    rw [parseHeaderValue, need_of_le (by simp), be64_encode]
    simp [bind, Except.bind]
  case byteArray bytes =>
    refine ⟨_, _, _, rfl, rfl, ?_⟩
    rw [parseHeaderValue, parseSized_encode h, length_encodeSized h]
    rfl
  case string s =>
    refine ⟨_, _, _, rfl, rfl, ?_⟩
    rw [parseHeaderValue, parseSized_encode h, length_encodeSized h]
    simp [bind, Except.bind]
  case uuid bytes =>
    refine ⟨_, _, _, rfl, rfl, ?_⟩
    have hv : (Vector.ofFn fun i : Fin 16 => (bytes.toList ++ rest).getD i 0) = bytes := by
      ext i hi
      simp [List.getElem?_append_left]
    rw [parseHeaderValue, need_of_le (by simp), hv]
    simp [bind, Except.bind]

theorem parseHeader_encode (h : HeaderFits name value) (rest : Bytes) : ∃ nameLen data,
    encodeHeader name value = nameLen :: data ∧
    parseHeader nameLen (data ++ rest) = .ok ((name, value), rest) := by
  have ⟨t, tail, type, he, ht, hv⟩ := parseHeaderValue_encode h.value rest
  have hle : name.utf8.length ≤ 255 := h.name_le
  have hn : (UInt8.ofNat name.utf8.length).toNat = name.utf8.length :=
    UInt8.toNat_ofNat_of_lt' (Nat.lt_succ_of_le hle)
  have hpos : name.utf8.length ≠ 0 := by
    have hp := h.name_pos
    omega
  refine ⟨.ofNat name.utf8.length, name.utf8 ++ t :: tail, ?_, ?_⟩
  · rw [encodeHeader, List.take_of_length_le h.name_le, he]
    rfl
  · rw [parseHeader, hn, need_of_le (by simp)]
    simp only [List.append_assoc, List.take_left, List.drop_left, List.cons_append, ht]
    simp [Except.ensure, hpos, bind, Except.bind, hv]

theorem parseHeadersFrom_flatMap {f : String → HeaderValue} {names : List String}
    (h : ∀ name ∈ names, HeaderFits name (f name))
    (hn : (names.flatMap fun name => encodeHeader name (f name)).length ≤ n) :
    parseHeadersFrom n (names.flatMap fun name => encodeHeader name (f name)) headers =
      .ok (names.foldl (fun headers name => headers.insert name (f name)) headers) := by
  induction names generalizing n headers
  case nil => cases n <;> rfl
  case cons name names hi =>
    rw [List.flatMap_cons] at hn ⊢
    have ⟨nameLen, data, he, hp⟩ := parseHeader_encode (h name (by simp))
      (names.flatMap fun name => encodeHeader name (f name))
    simp only [he, List.cons_append, List.length_cons, List.length_append] at hn ⊢
    cases n
    case zero => omega
    case succ n =>
      have hi : parseHeadersFrom n (names.flatMap fun name => encodeHeader name (f name))
          (headers.insert name (f name)) = _ := hi (fun name hm => h name (by simp [hm])) (by omega)
      simp [parseHeadersFrom, hp, bind, Except.bind, hi]

theorem lookup_foldl_insert {f : String → HeaderValue} {names : List String} :
    (names.foldl (fun headers name => headers.insert name (f name)) headers).lookup name =
      if name ∈ names then some (f name) else headers.lookup name := by
  induction names generalizing headers
  case nil => rfl
  case cons name' names hi =>
    rw [List.foldl_cons, hi]
    by_cases hm : name ∈ names
    case pos => simp [hm]
    case neg =>
      by_cases he : name = name'
      case pos =>
        subst he
        simp [hm, Finmap.lookup_insert]
      case neg => simp [hm, he, Finmap.lookup_insert_of_ne]

-- The value under a name that is there.
def valueOf (headers : Headers) (name : String) : HeaderValue :=
  (headers.lookup name).getD (.bool true)

theorem lookup_of_mem (h : name ∈ headers.keys.sort Before) :
    headers.lookup name = some (valueOf headers name) := by
  rw [Finset.mem_sort, Finmap.mem_keys, Finmap.mem_iff] at h
  have ⟨value, hv⟩ := h
  rw [valueOf, hv, Option.getD_some]

theorem encodeHeaders_eq : encodeHeaders headers =
    (headers.keys.sort Before).flatMap fun name => encodeHeader name (valueOf headers name) :=
  List.flatMap_congr fun _ hm => by rw [lookup_of_mem hm]

-- Headers are read back in whatever order they were written.
theorem parseHeaders_encode
    (h : ∀ name value, headers.lookup name = some value → HeaderFits name value) :
    parseHeaders (encodeHeaders headers) (encodeHeaders headers).length = .ok headers := by
  have hfit : ∀ name ∈ headers.keys.sort Before, HeaderFits name (valueOf headers name) :=
    fun name hm => h name _ (lookup_of_mem hm)
  have he : (headers.keys.sort Before).foldl
      (fun headers' name => headers'.insert name (valueOf headers name)) ∅ = headers := by
    refine Finmap.ext_lookup fun name => ?_
    rw [lookup_foldl_insert]
    by_cases hm : name ∈ headers.keys.sort Before
    case pos => rw [if_pos hm, lookup_of_mem hm]
    case neg =>
      rw [if_neg hm]
      rw [Finset.mem_sort, Finmap.mem_keys] at hm
      rw [Finmap.lookup_empty, Finmap.lookup_eq_none.mpr hm]
  rw [parseHeaders, need_of_le (le_refl _), List.take_length]
  simp only [bind, Except.bind]
  rw [encodeHeaders_eq, parseHeadersFrom_flatMap hfit (le_refl _), he]

-- A frame whose parts the format can hold.
structure Frame.Fits (frame : Frame) : Prop where
  headers : ∀ name value, frame.headers.lookup name = some value → HeaderFits name value
  length  : (encodeFrame frame).length ≤ maxMessageSize

theorem Frame.Fits.parse {frame : Frame} (h : frame.Fits) :
    parseFrame (encodeFrame frame ++ rest) = .ok (some (frame, (encodeFrame frame).length)) := by
  rw [encodeFrame, parseFrame_wrap h.length, parseHeaders_encode h.headers]
  rfl

-- The text in a value.
def HeaderValue.text : HeaderValue → String
  | .string s => s
  | _         => ""

-- No character of a header stands for bytes that aren't text.
def HeaderKept (name : String) (value : HeaderValue) : Prop :=
  Utf8.replacement ∉ name.toList ∧ Utf8.replacement ∉ value.text.toList

instance : Decidable (HeaderKept name value) := inferInstanceAs (Decidable (_ ∧ _))

theorem need_eq_ok : need n data = .ok u ↔ n ≤ data.length := by
  simp [need, Except.ensure_eq_ok]

theorem parseSized_eq_ok (h : parseSized data = .ok bytes) :
    bytes.length ≤ maxValueLen ∧ 2 + bytes.length ≤ data.length := by
  simp only [parseSized, Except.bind_eq_ok', need_eq_ok, Except.exists_unit] at h
  have ⟨_, hl, hb⟩ := h
  cases hb
  have hm := (be16 data).toNat_lt
  simp only [List.length_take, List.length_drop, maxValueLen]
  omega

-- A value that was read takes as many bytes when it's written.
theorem parseHeaderValue_eq_ok (h : parseHeaderValue data type = .ok (value, len))
    (hk : Utf8.replacement ∉ value.text.toList) :
    value.Fits ∧ (encodeHeaderValue value).length = 1 + len ∧ len ≤ data.length := by
  cases type <;> simp only [parseHeaderValue, Except.bind_eq_ok', need_eq_ok, Except.exists_unit,
    Except.ok.injEq, Prod.mk.injEq] at h
  case boolTrue | boolFalse =>
    have ⟨hv, hl⟩ := h
    subst hv hl
    exact ⟨trivial, rfl, Nat.zero_le _⟩
  case byte | short | integer | long | timestamp | uuid =>
    have ⟨hn, hv, hl⟩ := h
    subst hv hl
    exact ⟨trivial, by simp [encodeHeaderValue], hn⟩
  case byteArray =>
    have ⟨bytes, hb, hv, hl⟩ := h
    have ⟨hm, hd⟩ := parseSized_eq_ok hb
    subst hv hl
    exact ⟨hm, by simp [encodeHeaderValue, length_encodeSized hm, Nat.add_comm], hd⟩
  case string =>
    have ⟨bytes, hb, hv, hl⟩ := h
    have ⟨hm, hd⟩ := parseSized_eq_ok hb
    subst hv hl
    have he : (String.fromUtf8Lossy bytes).utf8 = bytes := String.utf8_fromUtf8Lossy hk
    have hf : (String.fromUtf8Lossy bytes).utf8.length ≤ maxValueLen := by rwa [he]
    refine ⟨hf, ?_, hd⟩
    rw [encodeHeaderValue, List.length_cons, length_encodeSized hf, he, Nat.add_comm]

theorem parseHeader_eq_ok (h : parseHeader nameLen data = .ok ((name, value), rest)) :
    rest.length ≤ data.length ∧ (HeaderKept name value → HeaderFits name value ∧
      (encodeHeader name value).length + rest.length = 1 + data.length) := by
  simp only [parseHeader, Except.bind_eq_ok', Except.ensure_eq_ok, need_eq_ok, Except.exists_unit,
    decide_eq_true_eq] at h
  have ⟨hpos, hn, h⟩ := h
  have hd : (data.drop nameLen.toNat).length = data.length - nameLen.toNat := List.length_drop
  split at h
  case h_1 => simp at h
  case h_2 t tail ht =>
    rw [ht, List.length_cons] at hd
    simp only [Except.bind_eq_ok', Except.ok.injEq, Prod.mk.injEq] at h
    have ⟨type, _, ⟨value', len⟩, hv, ⟨hname, hvalue⟩, hrest⟩ := h
    subst hname hvalue hrest
    refine ⟨by rw [List.length_drop]; omega, fun ⟨hkn, hkv⟩ => ?_⟩
    have ⟨hf, hl, hle⟩ := parseHeaderValue_eq_ok hv hkv
    have hname : (String.fromUtf8Lossy (data.take nameLen.toNat)).utf8 = data.take nameLen.toNat :=
      String.utf8_fromUtf8Lossy hkn
    have hlen : (data.take nameLen.toNat).length = nameLen.toNat := List.length_take_of_le hn
    have hmax : nameLen.toNat ≤ maxNameLen := Nat.le_of_lt_succ nameLen.toNat_lt
    refine ⟨⟨?_, ?_, hf⟩, ?_⟩
    · rw [hname, hlen]
      omega
    · rwa [hname, hlen]
    · rw [encodeHeader, hname, List.take_of_length_le (by rwa [hlen])]
      simp only [List.length_cons, List.length_append, hlen, hl, List.length_drop]
      omega

-- What a header takes in which nothing was replaced.
def keptLength (name : String) (value : HeaderValue) : Nat :=
  if HeaderKept name value then (encodeHeader name value).length else 0

def keptLengths (headers : Headers) : Nat :=
  ∑ name ∈ headers.keys, (headers.lookup name).elim 0 (keptLength name)

theorem keptLengths_insert :
    keptLengths (headers.insert name value) ≤ keptLength name value + keptLengths headers := by
  have hk : (headers.insert name value).keys = insert name (headers.keys.erase name) := by
    ext name'
    by_cases he : name' = name <;> simp [he, Finmap.mem_keys, Finmap.mem_insert]
  have hs : ∀ name' ∈ headers.keys.erase name,
      ((headers.insert name value).lookup name').elim 0 (keptLength name') =
        (headers.lookup name').elim 0 (keptLength name') := by
    intro name' hm
    rw [Finmap.lookup_insert_of_ne _ (Finset.ne_of_mem_erase hm)]
  rw [keptLengths, hk, Finset.sum_insert (by simp), Finmap.lookup_insert, Finset.sum_congr rfl hs]
  exact Nat.add_le_add_left (Finset.sum_le_sum_of_subset (Finset.erase_subset ..)) _

-- The headers that were read take no more than the bytes they were read from.
theorem parseHeadersFrom_eq_ok {headers' : Headers}
    (h : parseHeadersFrom n data headers = .ok headers') :
    keptLengths headers' ≤ keptLengths headers + data.length := by
  induction n generalizing data headers
  case zero =>
    cases h
    omega
  case succ n hi =>
    cases data
    case nil =>
      cases h
      omega
    case cons nameLen data =>
      simp only [parseHeadersFrom, Except.bind_eq_ok'] at h
      have ⟨⟨⟨name, value⟩, rest⟩, hp, h⟩ := h
      have ⟨hr, hk⟩ := parseHeader_eq_ok hp
      have hi : keptLengths headers' ≤ keptLengths (headers.insert name value) + rest.length :=
        hi h
      have hins : keptLengths (headers.insert name value) ≤
          keptLength name value + keptLengths headers := keptLengths_insert
      have hc : keptLength name value + rest.length ≤ 1 + data.length := by
        rw [keptLength]
        split
        case isTrue hm => exact (hk hm).right.le
        case isFalse => omega
      rw [List.length_cons]
      omega

theorem parseHeadersFrom_fits {headers' : Headers}
    (hf : ∀ name value, headers.lookup name = some value → HeaderKept name value →
      HeaderFits name value)
    (h : parseHeadersFrom n data headers = .ok headers') :
    ∀ name value, headers'.lookup name = some value → HeaderKept name value →
      HeaderFits name value := by
  induction n generalizing data headers
  case zero =>
    cases h
    exact hf
  case succ n hi =>
    cases data
    case nil =>
      cases h
      exact hf
    case cons nameLen data =>
      simp only [parseHeadersFrom, Except.bind_eq_ok'] at h
      have ⟨⟨⟨name, value⟩, rest⟩, hp, h⟩ := h
      refine hi (fun name' value' hl hk => ?_) h
      by_cases he : name' = name
      case pos =>
        subst he
        simp only [Finmap.lookup_insert, Option.some.injEq] at hl
        exact hl ▸ (parseHeader_eq_ok hp).right (hl ▸ hk) |>.left
      case neg =>
        rw [Finmap.lookup_insert_of_ne _ he] at hl
        exact hf name' value' hl hk

theorem length_encodeHeaders
    (h : ∀ name value, headers.lookup name = some value → HeaderKept name value) :
    (encodeHeaders headers).length = keptLengths headers := by
  have hs : ∀ name ∈ headers.keys.sort Before,
      (encodeHeader name (valueOf headers name)).length =
        (headers.lookup name).elim 0 (keptLength name) := by
    intro name hm
    have hv := lookup_of_mem hm
    rw [hv, Option.elim_some, keptLength, if_pos (h name _ hv)]
  rw [encodeHeaders_eq, List.length_flatMap, List.map_congr_left hs, keptLengths,
    ←Finset.sum_map_toList]
  exact ((Finset.sort_perm_toList _ Before).map _).sum_eq

-- The parts of a frame that was read fill its message.
theorem parseMessage_eq_ok {frame : Frame} (h : parseMessage data = .ok frame) :
    ∃ hb : Bytes, parseHeaders hb hb.length = .ok frame.headers ∧
      16 + hb.length + frame.payload.length = data.length := by
  simp only [parseMessage] at h
  split at h
  case isTrue => simp at h
  case isFalse =>
    split at h
    case isTrue => simp at h
    case isFalse hend =>
      simp only [Except.bind_eq_ok', Except.ok.injEq] at h
      have ⟨headers, hp, hf⟩ := h
      subst hf
      generalize hb : (data.take (data.length - 4)).take (preludeSize + headerLength data) = before
        at hp
      have hl : before.length = 12 + headerLength data := by
        simp only [←hb, List.length_take, preludeSize] at hend ⊢
        omega
      have hd : (before.drop preludeSize).length = headerLength data := by
        rw [List.length_drop, hl, preludeSize]
        omega
      refine ⟨before.drop preludeSize, hd ▸ hp, ?_⟩
      simp only [List.length_drop, List.length_take, preludeSize] at hend ⊢
      omega

-- A frame that was read with nothing replaced can be written.
theorem Frame.fits_of_parse {frame : Frame} (h : parseFrame data = .ok (some (frame, n)))
    (hk : ∀ name value, frame.headers.lookup name = some value → HeaderKept name value) :
    frame.Fits := by
  have ⟨hd, hn, hm⟩ := parseFrame_eq_some h
  have ⟨hb, hp, hl⟩ := parseMessage_eq_ok hm
  simp only [parseHeaders, need_of_le (le_refl _), List.take_length, bind, Except.bind] at hp
  have hfits := parseHeadersFrom_fits (by simp [Finmap.lookup_empty]) hp
  have hlen := parseHeadersFrom_eq_ok hp
  have hempty : keptLengths ∅ = 0 := by simp [keptLengths]
  have hmax := hd.max
  refine ⟨fun name value hv => hfits name value hv (hk name value hv), ?_⟩
  rw [List.length_take, Nat.min_eq_left hn] at hl
  rw [encodeFrame, length_wrap, length_encodeHeaders hk]
  omega

-- A frame the format can hold is read back as it was written, and so is a frame that was read, if
-- the format can still hold it once what isn't text in it has been replaced.
theorem frame_roundTrip :
    (∀ (frame : Frame) (rest : Bytes), frame.Fits →
      parseFrame (encodeFrame frame ++ rest) = .ok (some (frame, (encodeFrame frame).length))) ∧
    (∀ (data : Bytes) (frame : Frame) (n : Nat), parseFrame data = .ok (some (frame, n)) →
      (frame.Fits ∨
        ∀ name value, frame.headers.lookup name = some value → HeaderKept name value) →
      parseFrame (encodeFrame frame) = .ok (some (frame, (encodeFrame frame).length))) := by
  have hf (frame : Frame) (h : frame.Fits) :
      parseFrame (encodeFrame frame) = .ok (some (frame, (encodeFrame frame).length)) := by
    have hp : parseFrame (encodeFrame frame ++ []) = _ := h.parse
    rwa [List.append_nil] at hp
  refine ⟨fun frame rest h => h.parse, fun data frame n h hc => ?_⟩
  cases hc
  case inl hc => exact hf frame hc
  case inr hc => exact hf frame (Frame.fits_of_parse h hc)

theorem encodeHeaders_singleton :
    encodeHeaders (Finmap.singleton name value) = encodeHeader name value := by
  simp [encodeHeaders, Finmap.lookup_singleton_eq]

theorem eq_of_lookup_singleton {name' : String} {value' : HeaderValue}
    (h : (Finmap.singleton name value : Headers).lookup name' = some value') :
    name' = name ∧ value' = value := by
  have hn := Finmap.mem_of_lookup_eq_some h
  rw [Finmap.mem_singleton] at hn
  subst hn
  rw [Finmap.lookup_singleton_eq, Option.some.injEq] at h
  exact ⟨rfl, h.symm⟩

def sample : Frame := ⟨Finmap.singleton ":event-type" (.string "ping"), [1, 2, 3]⟩

theorem sample_kept (name : String) (value : HeaderValue)
    (h : sample.headers.lookup name = some value) : HeaderKept name value := by
  have ⟨hn, hv⟩ := eq_of_lookup_singleton h
  subst hn hv
  decide

theorem sample_fits : sample.Fits := by
  refine ⟨fun name value h => ?_, ?_⟩
  · have ⟨hn, hv⟩ := eq_of_lookup_singleton h
    subst hn hv
    exact ⟨by decide, by decide, by simp only [HeaderValue.Fits]; decide⟩
  · rw [encodeFrame, length_wrap, sample, encodeHeaders_singleton]
    decide

theorem frame_roundTrip_sample :
    parseFrame (encodeFrame sample ++ [0, 0]) = .ok (some (sample, (encodeFrame sample).length)) ∧
    parseFrame (encodeFrame sample) = .ok (some (sample, (encodeFrame sample).length)) :=
  ⟨frame_roundTrip.left sample [0, 0] sample_fits,
    frame_roundTrip.right (encodeFrame sample ++ []) sample _
      (frame_roundTrip.left sample [] sample_fits) (.inr sample_kept)⟩

-- A name of 86 bytes that aren't text is read as one of 258 bytes, which is cut when it's written.
theorem frame_roundTrip_replaced :
    ¬((∀ (frame : Frame) (rest : Bytes), frame.Fits →
        parseFrame (encodeFrame frame ++ rest) = .ok (some (frame, (encodeFrame frame).length))) ∧
      (∀ (data : Bytes) (frame : Frame) (n : Nat), parseFrame data = .ok (some (frame, n)) →
        parseFrame (encodeFrame frame) = .ok (some (frame, (encodeFrame frame).length)))) := by
  let hb : Bytes := 86 :: List.replicate 86 0xff ++ [0]
  let name : String := .ofList (List.replicate 86 Utf8.replacement)
  let cut : String := .ofList (List.replicate 85 Utf8.replacement)
  let frame : Frame := ⟨Finmap.singleton name (.bool true), []⟩
  intro ⟨_, h⟩
  have hp : parseHeaders hb hb.length = .ok (Finmap.singleton name (.bool true)) := rfl
  have hn : encodeHeader name (.bool true) =
      255 :: (List.replicate 85 [0xef, 0xbf, 0xbd]).flatten ++ [0] := by
    rw [encodeHeader, String.utf8, String.toList_ofList]
    decide +kernel
  have hc : parseHeaders (encodeHeader name (.bool true)) (encodeHeader name (.bool true)).length =
      .ok (Finmap.singleton cut (.bool true)) := by
    rw [hn]
    decide +kernel
  have hl : (wrap hb []).length ≤ maxMessageSize := by
    rw [length_wrap]
    decide
  have hl' : (wrap (encodeHeader name (.bool true)) []).length ≤ maxMessageSize := by
    rw [length_wrap, hn]
    decide +kernel
  have h := h (wrap hb [] ++ []) frame _ (by rw [parseFrame_wrap hl, hp]; rfl)
  rw [encodeFrame, encodeHeaders_singleton, ←List.append_nil (wrap ..), parseFrame_wrap hl', hc] at h
  simp only [Except.map, Except.ok.injEq, Option.some.injEq, Prod.mk.injEq, frame] at h
  have he : cut ∈ (Finmap.singleton name (.bool true) : Headers) := by
    rw [←(Frame.mk.inj h.left).left, Finmap.mem_singleton]
  rw [Finmap.mem_singleton] at he
  have he : cut.length = name.length := congrArg String.length he
  simp [cut, name] at he

end Wire
