import Superkiro.Wire.RoundTrip

-- What the checksums are, and that no change of one byte goes unnoticed.
namespace Wire

-- The checksum bit by bit, without a table.
def bitwiseUpdate (crc : UInt32) (b : UInt8) : UInt32 := crcStep^[8] (crc ^^^ b.toUInt32)

def bitwiseCrc32 (data : Bytes) : UInt32 := data.foldl bitwiseUpdate 0xffffffff ^^^ 0xffffffff

variable {a b c x : UInt32} {k : Nat}

theorem and_one_eq_zero : c &&& 1 = 0 ↔ c.toNat % 2 = 0 := by
  rw [← UInt32.toNat_inj, UInt32.toNat_and]
  exact Nat.and_one_is_mod _ ▸ Iff.rfl

theorem crcStep_even (h : c.toNat % 2 = 0) : (crcStep c).toNat = c.toNat / 2 := by
  rw [crcStep, if_neg (by simpa using and_one_eq_zero.mpr h)]
  simp [Nat.shiftRight_eq_div_pow]

theorem crcStep_eq : crcStep c = (if c.toNat % 2 = 0 then 0 else polynomial) ^^^ c >>> 1 := by
  by_cases h : c.toNat % 2 = 0
  case pos => rw [crcStep, if_neg (by simpa using and_one_eq_zero.mpr h), if_pos h, UInt32.zero_xor]
  case neg => rw [crcStep, if_pos (mt and_one_eq_zero.mp h), if_neg h]

-- A step goes through the bits one by one.
theorem crcStep_xor : crcStep (a ^^^ b) = crcStep a ^^^ crcStep b := by
  have h : (a ^^^ b).toNat % 2 = (a.toNat + b.toNat) % 2 := by
    rw [UInt32.toNat_xor, Nat.xor_mod_two_eq]
  rw [crcStep_eq, crcStep_eq, crcStep_eq, UInt32.shiftRight_xor, h]
  by_cases ha : a.toNat % 2 = 0 <;> by_cases hb : b.toNat % 2 = 0
  · rw [if_pos (by omega), if_pos ha, if_pos hb]
    simp
  · rw [if_neg (by omega), if_pos ha, if_neg hb]
    simp only [UInt32.zero_xor]
    ac_rfl
  · rw [if_neg (by omega), if_neg ha, if_pos hb]
    simp only [UInt32.zero_xor]
    ac_rfl
  · rw [if_pos (by omega), if_neg ha, if_neg hb, UInt32.zero_xor]
    calc
      _ = polynomial ^^^ polynomial ^^^ (a >>> 1 ^^^ b >>> 1) := by rw [UInt32.xor_self, UInt32.zero_xor]
      _ = _ := by ac_rfl

theorem crcStep_iterate_xor : crcStep^[k] (a ^^^ b) = crcStep^[k] a ^^^ crcStep^[k] b := by
  induction k generalizing a b
  case zero => rfl
  case succ k hi => simp only [Function.iterate_succ_apply, crcStep_xor, hi]

-- The highest bit tells what a step did.
theorem crcStep_eq_zero (h : crcStep c = 0) : c = 0 := by
  have hs : (c >>> 1).toNat = c.toNat / 2 := by simp [Nat.shiftRight_eq_div_pow]
  rw [crcStep_eq] at h
  split at h
  case isTrue he =>
    rw [UInt32.zero_xor] at h
    rw [h, UInt32.toNat_zero] at hs
    apply UInt32.toNat_inj.mp
    rw [UInt32.toNat_zero]
    omega
  case isFalse =>
    have hp : polynomial = c >>> 1 := UInt32.xor_eq_zero_iff.mp h
    have hl := c.toNat_lt
    rw [← hp] at hs
    have hn : polynomial.toNat = 0xedb88320 := rfl
    omega

theorem crcStep_injective : Function.Injective crcStep := by
  intro a b h
  apply UInt32.xor_eq_zero_iff.mp
  apply crcStep_eq_zero
  rw [crcStep_xor, h, UInt32.xor_self]

-- Bits that are shifted out as zeros change nothing else.
theorem crcStep_iterate_even (h : 2 ^ k ∣ c.toNat) : (crcStep^[k] c).toNat = c.toNat / 2 ^ k := by
  induction k generalizing c
  case zero => simp
  case succ k hi =>
    have he : c.toNat % 2 = 0 := Nat.mod_eq_zero_of_dvd ((dvd_pow_self 2 (Nat.succ_ne_zero k)).trans h)
    rw [Function.iterate_succ_apply, hi, crcStep_even he, Nat.div_div_eq_div_mul, Nat.pow_succ']
    rw [crcStep_even he]
    exact Nat.dvd_div_of_mul_dvd (Nat.pow_succ' ▸ h)

variable {byte : UInt8} {data : Bytes} {i n : Nat} {frame : Frame}

-- The table has what the lower eight bits come to, and the others are shifted down.
theorem crcUpdate_eq : crcUpdate c byte = bitwiseUpdate c byte := by
  let x := c ^^^ byte.toUInt32
  let low := x &&& 0xff
  have hlow : low.toNat = x.toNat % 2 ^ 8 := by
    rw [UInt32.toNat_and]
    exact Nat.and_two_pow_sub_one_eq_mod _ 8
  have hbyte : byte.toUInt32.toNat / 2 ^ 8 = 0 := Nat.div_eq_of_lt byte.toNat_lt
  have hhigh : (x ^^^ low).toNat % 2 ^ 8 = 0 := by
    rw [UInt32.toNat_xor, Nat.xor_mod_two_pow, hlow, Nat.mod_mod, Nat.xor_self]
  have hx : x.toNat / 2 ^ 8 = c.toNat / 2 ^ 8 := by
    rw [UInt32.toNat_xor, Nat.xor_div_two_pow, hbyte, Nat.xor_zero]
  have hshift : crcStep^[8] (x ^^^ low) = c >>> 8 := by
    apply UInt32.toNat_inj.mp
    rw [crcStep_iterate_even (Nat.dvd_of_mod_eq_zero hhigh), UInt32.toNat_xor, Nat.xor_div_two_pow,
      hlow, Nat.div_eq_of_lt (Nat.mod_lt _ (by decide)), Nat.xor_zero, hx]
    simp [Nat.shiftRight_eq_div_pow]
  have hsplit : x = x ^^^ low ^^^ low := by rw [UInt32.xor_assoc, UInt32.xor_self, UInt32.xor_zero]
  calc
    crcUpdate c byte = crcStep^[8] (x ^^^ low) ^^^ crcStep^[8] low := by rw [hshift]; rfl
    _ = crcStep^[8] (x ^^^ low ^^^ low) := crcStep_iterate_xor.symm
    _ = bitwiseUpdate c byte := by rw [← hsplit]; rfl

theorem crc32_eq : crc32 data = bitwiseCrc32 data := by
  have h : crcUpdate = bitwiseUpdate := funext fun _ => funext fun _ => crcUpdate_eq
  rw [crc32, bitwiseCrc32, h]

theorem crcUpdate_left_injective : Function.Injective (crcUpdate · byte) := by
  intro a b h
  simp only [crcUpdate_eq, bitwiseUpdate] at h
  exact UInt32.xor_left_inj _ |>.mp (crcStep_injective.iterate 8 h)

theorem crcUpdate_right_injective : Function.Injective (crcUpdate c) := by
  intro a b h
  simp only [crcUpdate_eq, bitwiseUpdate] at h
  have h := UInt32.xor_right_inj _ |>.mp (crcStep_injective.iterate 8 h)
  exact UInt8.toNat_inj.mp (congrArg UInt32.toNat h)

theorem foldl_crcUpdate_injective : Function.Injective (data.foldl crcUpdate) := by
  induction data
  case nil => exact fun _ _ h => h
  case cons byte data hi => exact fun _ _ h => crcUpdate_left_injective (hi h)

theorem foldl_split (h : i < data.length) : data.foldl crcUpdate c =
    (data.drop (i + 1)).foldl crcUpdate (crcUpdate ((data.take i).foldl crcUpdate c) data[i]) := by
  rw [← List.foldl_cons, ← List.foldl_append, ← List.drop_eq_getElem_cons h, List.take_append_drop]

-- Another byte in the place of one gives another checksum.
theorem crc32_set (h : i < data.length) (hb : byte ≠ data[i]) : crc32 (data.set i byte) ≠ crc32 data := by
  intro he
  rw [crc32, crc32, UInt32.xor_left_inj, List.set_eq_take_append_cons_drop, if_pos h,
    List.foldl_append, List.foldl_cons, foldl_split h] at he
  exact hb (crcUpdate_right_injective (foldl_crcUpdate_injective he))

theorem be32_inj {data data' : Bytes} (h : 4 ≤ data.length) (h' : 4 ≤ data'.length)
    (he : be32 data = be32 data') : data.take 4 = data'.take 4 := by
  have hl : (data.take 4).length = 4 := List.length_take_of_le h
  have hl' : (data'.take 4).length = 4 := List.length_take_of_le h'
  have hd : BigEndian.decode (data.take 4) < _ := BigEndian.decode_lt
  have hd' : BigEndian.decode (data'.take 4) < _ := BigEndian.decode_lt
  rw [hl] at hd
  rw [hl'] at hd'
  apply BigEndian.decode_inj (hl.trans hl'.symm)
  have hn := congrArg UInt32.toNat he
  rwa [be32, be32, UInt32.toNat_ofNat_of_lt' hd, UInt32.toNat_ofNat_of_lt' hd'] at hn

theorem be32_set (h : i < 4) (hl : 4 ≤ data.length) (hb : byte ≠ data[i]) :
    be32 (data.set i byte) ≠ be32 data := by
  intro he
  have ht := be32_inj (by rwa [List.length_set]) hl he
  have hi : i < data.length := Nat.lt_of_lt_of_le h hl
  have hg := congrArg (·[i]?) ht
  simp only [List.getElem?_take, h, if_true, List.getElem?_set, hi, List.getElem?_eq_getElem hi] at hg
  exact hb (Option.some.inj hg)

-- A checksum tells of a change of one byte before or in it.
theorem crc32_be32_set (hk : n + 4 ≤ data.length) (hc : crc32 (data.take n) = be32 (data.drop n))
    (hi : i < n + 4) (hb : byte ≠ data[i]) :
    crc32 ((data.set i byte).take n) ≠ be32 ((data.set i byte).drop n) := by
  by_cases h : i < n
  case pos =>
    have hl : i < (data.take n).length := by
      rw [List.length_take]
      omega
    rw [List.take_set, List.drop_set, if_pos h, ← hc]
    exact crc32_set hl (by rwa [List.getElem_take])
  case neg =>
    have hn : n ≤ i := Nat.not_lt.mp h
    have hl : i - n < (data.drop n).length := by
      rw [List.length_drop]
      omega
    have he : (data.drop n)[i - n] = data[i] := by
      rw [List.getElem_drop]
      simp only [Nat.add_sub_cancel' hn]
    rw [List.take_set_of_le hn, List.drop_set, if_neg h, hc]
    refine (be32_set (by omega) ?_ (he ▸ hb)).symm
    rw [List.length_drop]
    omega

theorem parseMessage_contents (h : parseMessage data = .ok frame) :
    crc32 (data.take (data.length - 4)) = be32 (data.drop (data.length - 4)) := by
  by_contra hn
  simp only [parseMessage, if_pos hn] at h
  cases h

-- No frame is read where one byte of a message was changed.
theorem Sealed.parseFrame_set (hs : Sealed data) (hm : 16 ≤ data.length) (hi : i < data.length)
    (hb : byte ≠ data[i]) : parseFrame (data.set i byte) ≠ .ok (some (frame, n)) := by
  intro h
  have ⟨hd, _, hp⟩ := parseFrame_eq_some h
  by_cases h12 : i < 12
  case pos => exact crc32_be32_set (by omega) hs.lengths h12 hb hd.crc
  case neg =>
    have ht : totalLength (data.set i byte) = data.length := by
      rw [← hs.total, totalLength, totalLength, be32, be32, List.take_set_of_le (by omega)]
    have hn : n = data.length := hd.total.symm.trans ht
    have hl : (data.set i byte).length = data.length := List.length_set
    rw [hn, ← hl, List.take_length] at hp
    have hc := parseMessage_contents hp
    rw [hl] at hc
    exact crc32_be32_set (by omega) hs.contents (by omega) hb hc

-- The checksum is the one of the polynomial, and no frame is read where one byte of a frame that was
-- written is another one.
theorem checksums_detect (data : Bytes) (frame : Frame) : crc32 data = bitwiseCrc32 data ∧
    ((encodeFrame frame).length < 2 ^ 32 → ∀ i byte, (hi : i < (encodeFrame frame).length) →
      byte ≠ (encodeFrame frame)[i] → ∀ result,
        parseFrame ((encodeFrame frame).set i byte) ≠ .ok (some result)) := by
  refine ⟨crc32_eq, fun h i byte hi hb result => ?_⟩
  refine (sealed_wrap h).parseFrame_set ?_ hi hb
  rw [length_wrap]
  omega

-- The shortest message.
def shortest : Bytes := [0, 0, 0, 16, 0, 0, 0, 0, 5, 194, 72, 235, 125, 152, 200, 255]

theorem shortest_eq : wrap [] [] = shortest ∧ parseFrame shortest = .ok (some (⟨∅, []⟩, 16)) := by
  decide +kernel

theorem encodeHeaders_empty : encodeHeaders ∅ = [] := by simp [encodeHeaders]

theorem encodeFrame_shortest : encodeFrame ⟨∅, []⟩ = shortest := by
  rw [encodeFrame, encodeHeaders_empty, shortest_eq.left]

theorem checksums_detect_sample : ∀ result,
    parseFrame ((encodeFrame ⟨∅, []⟩).set 3 17) ≠ .ok (some result) := by
  have h := (checksums_detect [] ⟨∅, []⟩).right
  simp only [encodeFrame_shortest] at h ⊢
  exact h (by decide) 3 17 (by decide) (by decide)

-- A frame whose length doesn't fit its field, and whose payload starts with the checksum that the shortest
-- message has there. It's read as the shortest message whatever follows.
def overlong : Frame := ⟨∅, shortest.drop 12 ++ .replicate (2 ^ 32 - 4) 0⟩

theorem encodeFrame_overlong : ∃ rest, encodeFrame overlong = shortest ++ rest ∧ 0 < rest.length := by
  have hl : overlong.payload.length = 2 ^ 32 := by
    rw [overlong, List.length_append, List.length_replicate]
    rfl
  let lengths := BigEndian.encode 4 16 ++ BigEndian.encode 4 0
  have ht : withCrc lengths = shortest.take 12 := by
    have hw : shortest = withCrc lengths ++ BigEndian.encode 4 (crc32 (withCrc lengths)).toNat := by
      rw [← shortest_eq.left]
      simp [wrap, lengths, withCrc]
    rw [hw]
    exact (List.take_left' (by simp [length_withCrc, lengths])).symm
  have h : BigEndian.encode 4 (12 + 0 + 2 ^ 32 + 4) ++ BigEndian.encode 4 0 = lengths := by decide
  rw [encodeFrame, show overlong.headers = ∅ from rfl, encodeHeaders_empty, wrap, hl,
    List.length_nil, h, ht, List.append_nil]
  rw [show overlong.payload = shortest.drop 12 ++ .replicate (2 ^ 32 - 4) 0 from rfl, ← List.append_assoc,
    List.take_append_drop, withCrc, List.append_assoc]
  refine ⟨_, rfl, ?_⟩
  rw [List.length_append, BigEndian.length_encode]
  exact Nat.lt_add_left _ (by decide)

theorem checksums_miss : ¬∀ (frame : Frame) i byte, (hi : i < (encodeFrame frame).length) →
    byte ≠ (encodeFrame frame)[i] → ∀ result,
      parseFrame ((encodeFrame frame).set i byte) ≠ .ok (some result) := by
  intro h
  have ⟨rest, hr, hl⟩ := encodeFrame_overlong
  have hi : 16 < (encodeFrame overlong).length := by
    rw [hr, List.length_append]
    exact Nat.lt_add_of_pos_right hl
  refine h overlong 16 ((encodeFrame overlong)[16] + 1) hi ?_ (⟨∅, []⟩, 16) ?_
  · simp
  · have hs : parseFrame shortest ≠ .ok none := by
      rw [shortest_eq.right]
      nofun
    generalize (encodeFrame overlong)[16] + 1 = byte
    rw [hr, List.set_append_right _ _ (Nat.le_refl 16), parseFrame_append hs, shortest_eq.right]

end Wire
