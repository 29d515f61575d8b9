import Superkiro.Billing.Family
import Superkiro.Gateway.Auth

namespace Gateway

open Billing Except Host F64 AList

namespace AuthState

section

variable {s : AuthState F}

@[simp]
theorem tokenBudgetRetryAfter_billing :
    (s.tokenBudgetRetryAfter cardId now).2.billing = s.billing := by
  simp only [tokenBudgetRetryAfter]
  split <;> rfl

@[simp]
theorem tokenBudgetRetryAfter_refreshGraceSecs :
    (s.tokenBudgetRetryAfter cardId now).2.refreshGraceSecs = s.refreshGraceSecs := by
  simp only [tokenBudgetRetryAfter]
  split <;> rfl

theorem issueRefreshToken_eq_ok {token : RefreshClaims}
    (h : issueRefreshToken cardId groupId tokenVersion refreshVersion ttl m = .ok token) :
    token.cardId = cardId ∧ token.tokenVersion = tokenVersion ∧
      token.refreshVersion = refreshVersion := by
  simp only [issueRefreshToken] at h
  split at h
  case h_1 => cases h
  case h_2 =>
    cases h
    exact ⟨rfl, rfl, rfl⟩

-- A token that is verified has the live version of its card.
theorem verifyRefresh_eq_ok (h : s.verifyRefresh refresh m = .ok claims) :
    ∃ c, s.billing.tables.cards.lookup refresh.cardId = some c ∧
      c.tokenVersion = refresh.tokenVersion ∧ claims.cardId = c.id ∧
      claims.tokenVersion = c.tokenVersion := by
  simp only [verifyRefresh, verifyTokenForCard, bind_eq_ok', ensure_eq_ok, pure_eq_ok,
    ofOption_eq_ok, decide_eq_true_eq] at h
  have ⟨_, _, _, ⟨c, hc, _, _, _, _, _, _, _, hv, hclaims⟩, h⟩ := h
  have ⟨_, _, _, _, h⟩ := h
  subst h hclaims
  exact ⟨c, hc, hv, rfl, hv.symm⟩

end

section

variable [Host F] {s : AuthState F} {io : Io}

theorem rotateRefreshToken_eq_ok
    (h : (s.rotateRefreshToken io refresh m).1 = .ok (claims, access, token)) :
    s.verifyRefresh refresh m = .ok claims ∧
      (s.tokenBudgetRetryAfter refresh.cardId m.answered).1 = none ∧ ∃ r,
      (s.billing.rotateRefresh io refresh.cardId refresh.refreshVersion refresh.jti refresh.exp
        m.answered s.refreshGraceSecs).1 = .ok r ∧
      token.cardId = claims.cardId ∧ token.tokenVersion = claims.tokenVersion ∧
      token.refreshVersion = r.version := by
  simp only [rotateRefreshToken] at h
  split at h
  case h_1 => cases h
  case h_2 claims' hv =>
    split at h
    case h_1 => cases h
    case h_2 s' hb =>
      have hs : s'.billing = s.billing ∧ s'.refreshGraceSecs = s.refreshGraceSecs := by
        rw [show s' = (s.tokenBudgetRetryAfter refresh.cardId m.answered).2 by rw [hb]]
        simp
      split at h
      case h_1 => cases h
      case h_2 r e hr =>
        split at h
        case h_1 => cases h
        case h_2 token' ht =>
          cases h
          rw [hs.left, hs.right] at hr
          exact ⟨hv, by rw [hb], r, by rw [hr], issueRefreshToken_eq_ok ht⟩

theorem signIn_eq_some (h : (s.signIn io cardId duration device m).1 = some (access, token)) :
    (s.tokenBudgetRetryAfter cardId m.answered).1 = none ∧ ∃ card,
      (s.billing.activateCardWithDevice io cardId m.answered duration (some device)).1 = .ok card ∧
      token.cardId = card.id ∧ token.tokenVersion = card.tokenVersion ∧
      token.refreshVersion = card.refreshVersion := by
  simp only [signIn] at h
  split at h
  case h_1 => cases h
  case h_2 s' hb =>
    have hs : s'.billing = s.billing := by
      rw [show s' = (s.tokenBudgetRetryAfter cardId m.answered).2 by rw [hb]]
      simp
    split at h
    case h_1 => cases h
    case h_2 card e hr =>
      split at h
      case h_1 => cases h
      case h_2 token' ht =>
        cases h
        rw [hs] at hr
        exact ⟨by rw [hb], card, by rw [hr], issueRefreshToken_eq_ok ht⟩

end

theorem asks_cases (s : AuthState F) (hl : l.request ≠ .billing .reload) :
    s.asks l = [] ∨ ∃ x, s.asks l = [x] ∧ x.op ≠ .reload := by
  have ⟨request, io⟩ := l
  cases request <;> simp only [asks]
  case signIn => split <;> simp
  case refresh => split <;> simp
  case billing op => exact .inr ⟨_, rfl, fun h => hl (h ▸ rfl)⟩

variable [F64 F] [Host F] {s : AuthState F} {io : Io}

omit [F64 F] [Host F] in
theorem mem_asks_signIn (h : (s.tokenBudgetRetryAfter cardId m.answered).1.isNone) :
    ⟨.activateCardWithDevice cardId m.answered duration (some device), io⟩ ∈
      s.asks ⟨.signIn cardId duration device m, io⟩ := by
  simp only [asks, if_pos h]
  exact .head _

-- A request leaves the billing as what it asks of it does.
theorem step_billing (s : AuthState F) (l : Label F) :
    (s.step l).2.billing = s.billing.execAll (s.asks l) := by
  have ⟨request, io⟩ := l
  cases request
  case billing => rfl
  case signIn cardId duration device m =>
    simp only [step, asks, signIn]
    have hb : (s.tokenBudgetRetryAfter cardId m.answered).2.billing = s.billing := by simp
    generalize s.tokenBudgetRetryAfter cardId m.answered = x at hb ⊢
    obtain ⟨wait, s'⟩ := x
    cases wait
    case some => exact hb
    case none =>
      simp only at hb
      simp only [Option.isNone_none, if_true, Engine.execAll, Engine.exec, hb]
      generalize s.billing.activateCardWithDevice io cardId m.answered duration (some device) = y
      obtain ⟨r, e⟩ := y
      cases r
      case error => rfl
      case ok =>
        simp only
        split <;> rfl
  case refresh refresh m =>
    simp only [step, asks, rotateRefreshToken]
    cases s.verifyRefresh refresh m
    case error => simp [Except.isOk, Except.toBool, Engine.execAll]
    case ok claims =>
      have hb : (s.tokenBudgetRetryAfter refresh.cardId m.answered).2.billing = s.billing ∧
        (s.tokenBudgetRetryAfter refresh.cardId m.answered).2.refreshGraceSecs =
          s.refreshGraceSecs := by simp
      generalize s.tokenBudgetRetryAfter refresh.cardId m.answered = x at hb ⊢
      obtain ⟨wait, s'⟩ := x
      cases wait
      case some => simpa [Engine.execAll] using hb.left
      case none =>
        simp only at hb
        simp only [Except.isOk, Except.toBool, Option.isNone_none, and_self, if_true, Engine.execAll,
          Engine.exec, hb]
        generalize s.billing.rotateRefresh io refresh.cardId refresh.refreshVersion refresh.jti
          refresh.exp m.answered s.refreshGraceSecs = y
        obtain ⟨r, e⟩ := y
        cases r
        case error => rfl
        case ok =>
          simp only
          split <;> rfl

theorem run_billing (s : AuthState F) (ls : List (Label F)) :
    (s.run ls).billing = s.billing.execAll (s.asked ls) := by
  induction ls generalizing s
  case nil => rfl
  case cons l ls hi => rw [run, hi, step_billing, asked, Engine.execAll_append]

theorem asked_ne_reload {ls : List (Label F)} (hl : ∀ l ∈ ls, l.request ≠ .billing .reload) :
    ∀ x ∈ s.asked ls, x.op ≠ .reload := by
  induction ls generalizing s
  case nil => simp [asked]
  case cons l ls hi =>
    intro x hx
    rcases List.mem_append.mp hx with hx | hx
    · rcases s.asks_cases (hl l (.head _)) with ha | ⟨y, ha, hy⟩
      · simp [ha] at hx
      · simp only [ha, List.mem_singleton] at hx
        exact hx ▸ hy
    · exact hi (fun l hm => hl l (.tail _ hm)) x hx

theorem step_live (h : Engine.Live k s.billing c) (hl : l.request ≠ .billing .reload) :
    ∃ c', Engine.Live k (s.step l).2.billing c' ∧ Engine.Moves c c' := by
  rw [step_billing]
  rcases s.asks_cases hl with ha | ⟨x, ha, hx⟩
  · rw [ha]
    exact ⟨c, h, .refl⟩
  · rw [ha]
    exact h.exec x.io hx

end AuthState

-- A token that can't be accepted from some card on, while there are versions left.
def Dead (token : RefreshClaims) (c : Card) : Prop :=
  c.refreshVersion < u64Max → token.tokenVersion < c.tokenVersion ∨
    RefreshFamily.Stale token.refreshVersion c.family

-- A token of a version that a card had.
structure Within (token : RefreshClaims) (c : Card) : Prop where
  sessions : token.tokenVersion ≤ c.tokenVersion
  refresh  : token.refreshVersion ≤ c.refreshVersion

theorem Dead.moves (hd : Dead token old) (h : Engine.Moves old new)
    (hb : old.refreshVersion ≤ u64Max) : Dead token new := by
  intro hm
  have hle : old.refreshVersion ≤ new.refreshVersion := (h.family.version_le hb).left
  rcases hd (by omega) with ht | hs
  · exact .inl (Nat.lt_of_lt_of_le ht h.sessions)
  · exact .inr (hs.next h.family hm)

theorem Within.moves (hw : Within token old) (h : Engine.Moves old new)
    (hb : old.refreshVersion ≤ u64Max) : Within token new where
  sessions := hw.sessions.trans h.sessions
  refresh  := hw.refresh.trans (h.family.version_le hb).left

namespace AuthState

variable [F64 F] [Host F] {s : AuthState F} {io : Io}

-- What a run may make of a card, and of the tokens it had.
theorem run_live {ls : List (Label F)} (h : Engine.Live k s.billing c)
    (hl : ∀ l ∈ ls, l.request ≠ .billing .reload) :
    ∃ c', Engine.Live k (s.run ls).billing c' ∧ c.refreshVersion ≤ c'.refreshVersion ∧
      ∀ token, (Dead token c → Dead token c') ∧ (Within token c → Within token c') := by
  induction ls generalizing s c
  case nil => exact ⟨c, h, le_refl _, fun _ => ⟨id, id⟩⟩
  case cons l ls hi =>
    have ⟨c₁, h₁, hm⟩ := step_live h (hl l (.head _))
    have ⟨c', h', hle, ht⟩ := hi h₁ fun l hm => hl l (.tail _ hm)
    refine ⟨c', h', (hm.family.version_le h.bounded).left.trans hle, fun token => ⟨?_, ?_⟩⟩
    · exact fun hd => (ht token).left (hd.moves hm h.bounded)
    · exact fun hw => (ht token).right (hw.moves hm h.bounded)

-- A token is issued with the versions its card has then.
theorem step_issued (h : Engine.Live k s.billing c) (h' : Engine.Live k (s.step l).2.billing c')
    (hm : Engine.Moves c c') (ht : (s.step l).1 = some token) (hk : token.cardId = k) :
    Within token c' := by
  have hb := step_billing s l
  obtain ⟨request, io⟩ := l
  cases request
  case billing => cases ht
  case signIn cardId duration device m =>
    simp only [step, Option.map_eq_some_iff] at ht
    obtain ⟨⟨access, _⟩, hs, he⟩ := ht
    subst he
    obtain ⟨hbudget, card, hok, hid, hv, hr⟩ := signIn_eq_some hs
    obtain ⟨_, _, hn, _⟩ := Engine.activateCardWithDevice_family hok
    simp only [asks, hbudget, Option.isNone_none, if_true, Engine.execAll, Engine.exec] at hb
    rw [←hb] at hn
    have hcard : card.id = cardId := h'.keyed.cards hn
    have he : k = cardId := by rw [←hk, hid, hcard]
    subst he
    rw [h'.found, Option.some.injEq] at hn
    rw [hn]
    exact ⟨Nat.le_of_eq hv, Nat.le_of_eq hr⟩
  case refresh refresh m =>
    simp only [step, Option.map_eq_some_iff, toOption_eq_some] at ht
    obtain ⟨⟨claims, access, _⟩, hs, he⟩ := ht
    subst he
    obtain ⟨hverified, hbudget, r, hok, hid, hv, hr⟩ := rotateRefreshToken_eq_ok hs
    obtain ⟨c₀, hc₀, _, hclaims, hlive⟩ := verifyRefresh_eq_ok hverified
    have hcard : c₀.id = refresh.cardId := h.keyed.cards hc₀
    have he : k = refresh.cardId := by rw [←hcard, ←hclaims, ←hid, hk]
    subst he
    rw [h.found, Option.some.injEq] at hc₀
    subst hc₀
    refine ⟨?_, ?_⟩
    · rw [hv, hlive]
      exact hm.sessions
    · rw [hr]
      have hanswer := Engine.rotateRefresh_cases hok h.found
      simp only [asks, hbudget, hverified, Except.isOk, Except.toBool, Option.isNone_none, and_self,
        if_true, Engine.execAll, Engine.exec] at hb
      rw [←hb] at hanswer
      generalize (s.step _).2.billing = e' at hanswer h'
      cases hanswer
      case rotated hn =>
        rw [h'.found, Option.some.injEq] at hn
        exact Nat.le_of_eq (congrArg Card.refreshVersion hn.symm)
      case reissued => exact (hm.family.version_le h.bounded).left

theorem run_issued {ls : List (Label F)} (h : Engine.Live k s.billing c)
    (hl : ∀ l ∈ ls, l.request ≠ .billing .reload) (h' : Engine.Live k (s.run ls).billing c')
    (ht : token ∈ s.issued ls) (hk : token.cardId = k) : Within token c' := by
  induction ls generalizing s c
  case nil => cases ht
  case cons l ls hi =>
    have ⟨c₁, h₁, hm⟩ := step_live h (hl l (.head _))
    rcases List.mem_append.mp ht with ht | ht
    · have hw := step_issued h h₁ hm (Option.mem_toList.mp ht) hk
      have ⟨c₂, h₂, _, hs⟩ := run_live h₁ fun l hm => hl l (.tail _ hm)
      have he : c₂ = c' := Option.some.inj (h₂.found.symm.trans h'.found)
      exact he ▸ (hs token).right hw
    · exact hi h₁ (fun l hm => hl l (.tail _ hm)) h' ht

-- Whether a token gets nothing, and the billing stays as it is.
def Refused (s : AuthState F) (token : RefreshClaims) : Prop :=
  ∀ io m, (∃ err, (s.rotateRefreshToken io token m).1 = .error err) ∧
    (s.rotateRefreshToken io token m).2.billing = s.billing

omit [F64 F] in
theorem refused_of_dead (h : Engine.Live k s.billing c) (hd : Dead token c)
    (hm : c.refreshVersion < u64Max) (hk : token.cardId = k) : s.Refused token := by
  intro io m
  simp only [rotateRefreshToken]
  cases hv : s.verifyRefresh token m
  case error err => exact ⟨⟨err, rfl⟩, rfl⟩
  case ok claims =>
    have ⟨_, hc, hlive, _⟩ := verifyRefresh_eq_ok hv
    rw [hk, h.found, Option.some.injEq] at hc
    subst hc
    have hs := (hd hm).resolve_left (by omega)
    have ⟨hne, hr⟩ := Engine.not_isRetry_of_stale m.answered s.refreshGraceSecs hs hm
    have hb : (s.tokenBudgetRetryAfter token.cardId m.answered).2.billing = s.billing ∧
        (s.tokenBudgetRetryAfter token.cardId m.answered).2.refreshGraceSecs =
          s.refreshGraceSecs := by simp
    generalize s.tokenBudgetRetryAfter token.cardId m.answered = x at hb ⊢
    obtain ⟨wait, s'⟩ := x
    cases wait
    case some wait => exact ⟨⟨_, rfl⟩, hb.left⟩
    case none =>
      simp only at hb
      have ⟨err, he⟩ := Engine.rotateRefresh_refused io token.jti token.exp h.found hne hr
      rw [←hk] at he
      simp only [hb, he]
      exact ⟨⟨_, rfl⟩, trivial⟩

-- Whether a request ends what was issued for a card before: it signs the card in, or it ends its
-- sessions.
def Ends (s : AuthState F) (k : String) (l : Label F) : Prop :=
  (∃ x ∈ s.asks l, ∃ now duration device, x.op = .activateCardWithDevice k now duration device ∧
    (s.billing.outcome x.io x.op).isOk) ∨
  ∃ c c', s.billing.tables.cards.lookup k = some c ∧
    (s.step l).2.billing.tables.cards.lookup k = some c' ∧ c.tokenVersion < c'.tokenVersion

theorem dead_of_ends (h : Engine.Live k s.billing c) (h' : Engine.Live k (s.step l).2.billing c')
    (hl : l.request ≠ .billing .reload) (he : s.Ends k l) (hw : Within token c) :
    Dead token c' := by
  intro hm
  rcases he with ⟨x, hx, now, duration, device, hop, hok⟩ | ⟨_, _, hc, hc', hlt⟩
  · have ha : s.asks l = [x] := by
      rcases s.asks_cases hl with ha | ⟨y, ha, _⟩
      · simp [ha] at hx
      · rw [ha, List.mem_singleton] at hx
        rw [ha, hx]
    have hb := step_billing s l
    rw [ha, Engine.execAll, Engine.execAll] at hb
    simp only [hop, Engine.outcome, Engine.isOk_map] at hok
    obtain ⟨_, hok⟩ := hok
    obtain ⟨_, ho, hn, hf⟩ := Engine.activateCardWithDevice_family hok
    rw [hop, Engine.exec] at hb
    rw [←hb, h'.found, Option.some.injEq] at hn
    rw [h.found, Option.some.injEq] at ho
    subst ho hn
    refine .inr (hf ▸ RefreshFamily.stale_renewed hw.refresh ?_)
    exact hf ▸ hm
  · rw [h.found, Option.some.injEq] at hc
    rw [h'.found, Option.some.injEq] at hc'
    subst hc hc'
    exact .inl (Nat.lt_of_le_of_lt hw.sessions hlt)

-- What a card's refresh tokens are good for after some requests.
structure Guarded (s₀ : AuthState F) (ls : List (Label F)) (k : String) (c₀ c : Card) : Prop where
  current : c.refreshVersion < u64Max → ∀ {io presented jti expires now grace r e'},
    (s₀.run ls).billing.rotateRefresh io k presented jti expires now grace = (.ok r, e') →
    (presented = c.refreshVersion ∧ r = .rotated (presented + 1)) ∨
    (presented + 1 = c.refreshVersion ∧ r = .reissued c.refreshVersion ∧ e' = (s₀.run ls).billing ∧
      ∃ rotated, Engine.rotatedAt k s₀.billing (s₀.asked ls) c₀.refreshRotatedAt = some rotated ∧
        now - rotated < grace)
  older   : ∀ {presented ls'}, presented + 1 < c.refreshVersion →
    (∀ l ∈ ls', l.request ≠ .billing .reload) → ∀ io jti expires now grace, ∃ err,
      ((s₀.run ls).run ls').billing.rotateRefresh io k presented jti expires now grace =
        (.error err, ((s₀.run ls).run ls').billing)
  ended   : ∀ {l ls' token c'}, (∀ l' ∈ l :: ls', l'.request ≠ .billing .reload) →
    (s₀.run ls).Ends k l → token ∈ s₀.issued ls → token.cardId = k →
    ((s₀.run ls).run (l :: ls')).billing.tables.cards.lookup k = some c' →
    c'.refreshVersion < u64Max → ((s₀.run ls).run (l :: ls')).Refused token

-- In every run, only the current refresh token of a card rotates, the one before is a retry for the
-- time of the grace, and no older one is taken again. Neither is any that was issued before the
-- card was signed in again or its sessions were ended.
theorem refresh_family {s₀ : AuthState F} {ls : List (Label F)} {c₀ : Card}
    (hk : s₀.billing.tables.Keyed) (h₀ : s₀.billing.tables.cards.lookup k = some c₀)
    (hs : c₀.lifecycle.Sound) (hb : c₀.refreshVersion ≤ u64Max)
    (hl : ∀ l ∈ ls, l.request ≠ .billing .reload) :
    ∃ c, (s₀.run ls).billing.tables.cards.lookup k = some c ∧ Guarded s₀ ls k c₀ c := by
  have hlive₀ : Engine.Live k s₀.billing c₀ := ⟨hk, h₀, hs, hb⟩
  have ⟨c, hlive, _⟩ := run_live hlive₀ hl
  refine ⟨c, hlive.found, ?_⟩
  constructor
  case current =>
    intro hm io presented jti expires now grace r e' h
    have hanswer := Engine.rotateRefresh_cases (congrArg Prod.fst h) hlive.found
    have hat : c.refreshRotatedAt =
        Engine.rotatedAt k s₀.billing (s₀.asked ls) c₀.refreshRotatedAt :=
      Engine.execAll_rotatedAt hk (asked_ne_reload hl) h₀ (by rw [←run_billing]; exact hlive.found)
    rw [h] at hanswer
    cases hanswer
    case rotated hp hc _ =>
      have hv := congrArg RefreshFamily.version hc
      rw [RefreshFamily.rotated_version hm] at hv
      exact .inl ⟨hp, congrArg RefreshRotation.rotated (hp ▸ hv)⟩
    case reissued hr =>
      have ⟨hp, rotated, hrot, hlt⟩ := (Tables.isRetry_iff hm).mp hr
      exact .inr ⟨hp, rfl, rfl, rotated, hat ▸ hrot, hlt⟩
  case older =>
    intro presented ls' hlt hl' io jti expires now grace
    have ⟨c', hlive', hle, _⟩ := run_live hlive hl'
    have ⟨hne, hr⟩ := Engine.not_isRetry_of_lt now grace (Nat.lt_of_lt_of_le hlt hle)
    exact Engine.rotateRefresh_refused io jti expires hlive'.found hne hr
  case ended =>
    intro l ls' token c' hl' he ht hid hc' hm
    have hw := run_issued hlive₀ hl hlive ht hid
    have ⟨c₁, hlive₁, _⟩ := step_live hlive (hl' l (.head _))
    have hd := dead_of_ends hlive hlive₁ (hl' l (.head _)) he hw
    have ⟨c₂, hlive₂, _, hs₂⟩ := run_live hlive₁ fun l hm => hl' l (.tail _ hm)
    have hc : c₂ = c' := Option.some.inj (hlive₂.found.symm.trans hc')
    exact refused_of_dead hlive₂ ((hs₂ token).left hd) (hc ▸ hm) hid

-- A gateway whose billing has one card, which signs in from one device.
def sample : AuthState ℚ := { billing := Engine.sample }

def signedIn (now : Nat) (nonce : String) : Label ℚ :=
  ⟨.signIn "card-1" 86400 "device-1" ⟨now, now, now, some nonce⟩, {}⟩

end AuthState

-- A token doesn't outlive the next sign-in.
theorem refresh_family_signedIn :
    let s := AuthState.sample.run [AuthState.signedIn 10 "a", AuthState.signedIn 20 "b"]
    ∃ token, AuthState.sample.issued [AuthState.signedIn 10 "a"] = [token] ∧ s.Refused token := by
  let token : RefreshClaims :=
    ⟨"card-1", "default", 1, 2, 2592010, 10, "a", "refresh", "kiro-byok", "kiro-gateway"⟩
  have hissued : AuthState.sample.issued [AuthState.signedIn 10 "a"] = [token] := by decide +kernel
  have hl : ∀ l ∈ [AuthState.signedIn 10 "a"], l.request ≠ .billing .reload := by
    simp [AuthState.signedIn]
  have hk : AuthState.sample.billing.tables.Keyed := sample_started.fresh.keyed
  have hc : AuthState.sample.billing.tables.cards.lookup "card-1" = some Card.sample := rfl
  have hs : Card.sample.lifecycle.Sound :=
    Lifecycle.New.sound ⟨by decide, rfl, .inr ⟨rfl, rfl⟩⟩
  have ⟨_, _, hg⟩ := AuthState.refresh_family hk hc hs (by decide) hl
  have hends : (AuthState.sample.run [AuthState.signedIn 10 "a"]).Ends "card-1"
      (AuthState.signedIn 20 "b") := by
    let op : Op ℚ := .activateCardWithDevice "card-1" 20 86400 (some "device-1")
    refine .inl ⟨⟨op, {}⟩, ?_, 20, 86400, some "device-1", rfl, by decide +kernel⟩
    exact AuthState.mem_asks_signIn (by decide +kernel)
  have hv : ((AuthState.sample.run [AuthState.signedIn 10 "a", AuthState.signedIn 20 "b"]
      ).billing.tables.cards.lookup "card-1").map (·.refreshVersion) = some 3 := by decide +kernel
  have ⟨c, hc, hv⟩ := Option.map_eq_some_iff.mp hv
  refine ⟨token, hissued, hg.ended ?_ hends ?_ rfl hc ?_⟩
  · simp [AuthState.signedIn]
  · simp [hissued]
  · rw [hv]
    decide

end Gateway
