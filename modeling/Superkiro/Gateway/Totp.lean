import Superkiro.Lib.BigEndian
import Superkiro.Lib.Run
import Superkiro.Lib.Text

namespace Gateway.AdminLogin

-- What's been read of a base 32 text, and the bits that aren't a byte yet.
structure Base32 where
  bytes  : List UInt8 := []
  buffer : Nat := 0
  bits   : Nat := 0

namespace Base32

def digit? (c : UInt8) : Option Nat :=
  if 'A'.toNat ≤ c.toNat ∧ c.toNat ≤ 'Z'.toNat then some (c.toNat - 'A'.toNat)
  else if '2'.toNat ≤ c.toNat ∧ c.toNat ≤ '7'.toNat then some (c.toNat - '2'.toNat + 26)
  else none

def push (s : Base32) (c : UInt8) : Option Base32 := do
  let n ← digit? c
  let buffer := s.buffer <<< 5 ||| n
  let bits := s.bits + 5
  if 8 ≤ bits then
    return ⟨s.bytes ++ [.ofNat (buffer >>> (bits - 8))], buffer % 2 ^ (bits - 8), bits - 8⟩
  else
    return ⟨s.bytes, buffer % 2 ^ bits, bits⟩

end Base32

structure Totp where
  key      : List UInt8
  lastUsed : Nat
  deriving DecidableEq

namespace Totp

def invalid : String :=
  "invalid ADMIN_TOTP_SECRET (expected unpadded Base32, 20..64 decoded bytes)"

-- The steps that a process before this one may have used up are refused.
def new (secret : String) (now : Nat) : Except String Totp :=
  let bytes := secret.toByteArray.data.toList
  if bytes.length < 32 ∨ 103 < bytes.length then .error invalid
  else match bytes.foldlM Base32.push {} with
    | none   => .error invalid
    | some s =>
      if s.bytes.length < 20 ∨ 64 < s.bytes.length ∨ 5 ≤ s.bits ∨ s.buffer ≠ 0 then .error invalid
      else .ok ⟨s.bytes, now / 30 + 1⟩

variable (hmac : List UInt8 → List UInt8 → Vector UInt8 20) (t : Totp)

def code (step : Nat) : String :=
  let tag := (hmac t.key (BigEndian.encode 8 step)).toList
  let offset := (tag.getD 19 0).toNat % 16
  let value := BigEndian.decode ((tag.drop offset).take 4) % 2 ^ 31
  Text.padded 6 (value % 1000000)

-- The last of the steps that a code is of, if there is one that's not been used.
def matched (code : String) (now : Nat) : Option Nat :=
  let step := now / 30
  (List.range' (step - 1) (step + 1 - (step - 1) + 1)).foldl (fun m candidate =>
    if t.code hmac candidate = code ∧ t.lastUsed < candidate then some candidate else m) none

def verify (code : String) (now : Nat) : Bool × Totp :=
  if code.utf8ByteSize ≠ 6 ∨ ¬code.toList.all Char.isDigit then (false, t)
  else match t.matched hmac code now with
    | some candidate => (true, { t with lastUsed := candidate })
    | none           => (false, t)

section

variable {hmac t} {code : String} {step now : Nat}

theorem of_foldl_ite {p : α → Prop} [DecidablePred p] {l : List α} {init : Option α} {a : α}
    (h : l.foldl (fun m c => if p c then some c else m) init = some a) :
    init = some a ∨ (a ∈ l ∧ p a) := by
  induction l generalizing init
  case nil => exact .inl h
  case cons c l hi =>
    rw [List.foldl_cons] at h
    cases hi h
    case inr hm => exact .inr (hm.imp_left (List.mem_cons_of_mem _))
    case inl hc =>
      split at hc
      case isTrue hp => exact .inr (Option.some_inj.mp hc ▸ ⟨List.mem_cons_self, hp⟩)
      case isFalse => exact .inl hc

-- A code that's accepted is that of a step next to the clock's, and later than those before.
theorem of_matched (h : t.matched hmac code now = some step) :
    t.code hmac step = code ∧ t.lastUsed < step ∧ now / 30 ≤ step + 1 ∧ step ≤ now / 30 + 1 := by
  have ⟨hm, hc, hl⟩ := (of_foldl_ite h).resolve_left nofun
  have := List.mem_range'_1.mp hm
  exact ⟨hc, hl, by omega, by omega⟩

theorem verify_spec (h : (t.verify hmac code now).1 = true) :
    let t' := (t.verify hmac code now).2
    t.code hmac t'.lastUsed = code ∧ t.lastUsed < t'.lastUsed ∧
      now / 30 ≤ t'.lastUsed + 1 ∧ t'.lastUsed ≤ now / 30 + 1 := by
  rw [verify] at h ⊢
  split_ifs at h ⊢
  case neg =>
    cases hm : t.matched hmac code now
    case none => rw [hm] at h; cases h
    case some => exact of_matched hm

theorem verify_refused (h : (t.verify hmac code now).1 = false) :
    (t.verify hmac code now).2 = t := by
  rw [verify] at h ⊢
  split_ifs at h ⊢
  case pos => rfl
  case neg =>
    cases hm : t.matched hmac code now
    case none => rfl
    case some => rw [hm] at h; cases h

theorem new_lastUsed {secret : String} (h : new secret now = .ok t) : t.lastUsed = now / 30 + 1 := by
  rw [new] at h
  split_ifs at h
  split at h
  case h_1 => cases h
  case h_2 =>
    split_ifs at h
    cases h
    rfl

end

end Totp

inductive CodeOp
  | restart (secret : String) (now : Nat)
  | verify (code : String) (now : Nat)

-- The steps that have been accepted, each with when that was, the latest first.
structure Codes where
  totp     : Totp
  accepted : List (Nat × Nat)
  clock    : Nat

namespace Codes

variable (hmac : List UInt8 → List UInt8 → Vector UInt8 20)

def verified (w : Codes) (code : String) (now : Nat) : Codes :=
  let (good, t) := w.totp.verify hmac code now
  ⟨t, if good then (t.lastUsed, now) :: w.accepted else w.accepted, now⟩

inductive Step : Codes → CodeOp → Codes → Prop
  | restart {w : Codes} {secret : String} {now : Nat} {t : Totp} (hc : w.clock ≤ now)
    (h : Totp.new secret now = .ok t) : Step w (.restart secret now) ⟨t, w.accepted, now⟩
  | verify {w : Codes} {code : String} {now : Nat} (hc : w.clock ≤ now) :
    Step w (.verify code now) (w.verified hmac code now)

-- Steps are accepted next to the clock's, and each only after those before it.
structure Ordered (w : Codes) : Prop where
  pairwise : w.accepted.Pairwise fun e e' => e'.1 < e.1
  near     : ∀ e ∈ w.accepted, e.2 / 30 ≤ e.1 + 1 ∧ e.1 ≤ e.2 / 30 + 1 ∧ e.2 ≤ w.clock
  used     : ∀ e ∈ w.accepted, e.1 ≤ w.totp.lastUsed

variable {hmac} {w w' : Codes} {op : CodeOp} {ops : List CodeOp}

theorem Ordered.step (h : w.Ordered) (hs : Step hmac w op w') : w'.Ordered := by
  cases hs
  case restart secret now t hc ht =>
    have hn : ∀ e ∈ w.accepted, e.2 ≤ now := fun e he => (h.near e he).right.right.trans hc
    refine ⟨h.pairwise, fun e he => ?_, fun e he => ?_⟩
    · exact ⟨(h.near e he).left, (h.near e he).right.left, hn e he⟩
    · have := hn e he
      have := (h.near e he).right.left
      rw [Totp.new_lastUsed ht]
      dsimp only at *
      omega
  case verify code now hc =>
    have hn : ∀ e ∈ w.accepted, e.2 / 30 ≤ e.1 + 1 ∧ e.1 ≤ e.2 / 30 + 1 ∧ e.2 ≤ now :=
      fun e he => (h.near e he).imp_right (.imp_right (·.trans hc))
    rw [verified]
    cases hv : (w.totp.verify hmac code now).1
    case false =>
      simp only [hv, Totp.verify_refused hv]
      exact ⟨h.pairwise, hn, h.used⟩
    case true =>
      have ⟨_, hl, hb, ha⟩ := Totp.verify_spec hv
      simp only [hv]
      refine ⟨List.pairwise_cons.mpr ⟨fun e he => (h.used e he).trans_lt hl, h.pairwise⟩, ?_, ?_⟩
      · exact List.forall_mem_cons.mpr ⟨⟨hb, ha, Nat.le_refl _⟩, hn⟩
      · exact List.forall_mem_cons.mpr ⟨Nat.le_refl _, fun e he => (h.used e he).trans hl.le⟩

theorem run_ordered {t : Totp} {now : Nat} (h : Run (Step hmac) ⟨t, [], now⟩ ops w) : w.Ordered :=
  h.preserves (fun hI hs => hI.step hs) ⟨.nil, nofun, nofun⟩

end Codes

end Gateway.AdminLogin
