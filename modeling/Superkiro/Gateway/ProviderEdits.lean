import Superkiro.Gateway.Providers
import Superkiro.Lib.Serial

-- Edits of providers and keys that many administrators make at once.
namespace Providers

open Billing (BillingError)
open Except (bind_eq_ok' checkAll ensure ensure_eq_ok exists_unit mapError_eq_ok ofOption ofOption_eq_ok)
open Serial

inductive Request
  | editKey (u : KeyUpdate) (encrypt : Seal)
  | deleteKey (providerId keyId : String)
  | deleteProvider (id : String)
  | editProvider (e : ProviderEdit)
  | setEnabled (providerId : String) (enabled : Bool)
  | importAll (items : List ImportedProvider) (encrypt : Seal)

-- How far a request is. A key's edit looks for its provider, then for the key, and saves it later.
inductive Phase
  | waiting
  | known
  | edited (old : Option ProviderKey) (key : ProviderKey)

-- A refused change names what blocks it. One that couldn't be saved changed nothing.
def refused : BillingError → Failure
  | .invalidState message => ⟨409, message⟩
  | _                     => ⟨503, "Provider persistence failed"⟩

def notFound (missing : String) : Except BillingError (Option α) → Except Failure α
  | .error e      => .error (refused e)
  | .ok none      => .error ⟨404, missing⟩
  | .ok (some a)  => .ok a

section

variable {F ι : Type} (decrypt checkBaseUrl : String → Option String)

namespace Request

-- A key's edit with nothing between its steps.
def changeKey (u : KeyUpdate) (encrypt : Seal) (s : Saved F) : Except Failure (Saved F) := do
  ensure (Text.validId u.keyId 256) (⟨400, "Invalid key ID"⟩ : Failure)
  let _ ← ofOption (s.providers.lookup u.providerId) (⟨404, "Unknown provider"⟩ : Failure)
  ensure (!(s.runtimeKeys decrypt).any fun k => k.id = u.keyId && k.providerId ≠ u.providerId)
    (⟨409, "Key belongs to another provider"⟩ : Failure)
  let key ← u.edited (s.keyNamed decrypt u.keyId)
  (s.upsertProviderBatch encrypt [] [key] false).mapError fun _ => ⟨503, "Key persistence failed"⟩

-- What becomes of the saved state. All but a key's edit read and change it in one step.
def change (s : Saved F) : Request → Except Failure (Saved F)
  | editKey u encrypt => changeKey decrypt u encrypt s
  | deleteKey providerId keyId => notFound "Unknown key" (s.deleteProviderKey providerId keyId)
  | deleteProvider id => notFound "Unknown provider" (s.deleteProvider id)
  | editProvider e => do
    e.check checkBaseUrl
    notFound "Unknown provider" (.ok (s.editProvider e.id e.apply))
  | setEnabled providerId enabled => do
    ensure (Text.validId providerId 128) (⟨400, "provider_id is invalid"⟩ : Failure)
    notFound "provider not found" (.ok (s.setProviderEnabled (Text.trim providerId) enabled))
  | importAll items encrypt => do
    checkAll items (·.check checkBaseUrl)
    (s.upsertProviderBatch encrypt (items.map (·.toProvider)) (items.map (·.toKey)) true).mapError
      fun e => ⟨503, "Failed to persist imported providers: " ++ e.message⟩

def ofExcept : Except Failure (Saved F) → Next (Saved F) Phase Failure
  | .error e => .refuses e
  | .ok s    => .commits s

def nextEdit (u : KeyUpdate) (encrypt : Seal) (s : Saved F) :
    Phase → Next (Saved F) Phase Failure
  | .waiting =>
    if !Text.validId u.keyId 256 then .refuses ⟨400, "Invalid key ID"⟩
    else
      match s.providers.lookup u.providerId with
      | none   => .refuses ⟨404, "Unknown provider"⟩
      | some _ => .reads .known
  | .known =>
    let keys := s.runtimeKeys decrypt
    if keys.any fun k => k.id = u.keyId && k.providerId ≠ u.providerId then
      .refuses ⟨409, "Key belongs to another provider"⟩
    else
      let old := keys.find? (·.id = u.keyId)
      match u.edited old with
      | .error e => .refuses e
      | .ok key  => .reads (.edited old key)
  | .edited _ key =>
    ofExcept ((s.upsertProviderBatch encrypt [] [key] false).mapError fun _ =>
      ⟨503, "Key persistence failed"⟩)

def next (r : Request) (phase : Phase) (s : Saved F) : Next (Saved F) Phase Failure :=
  match r with
  | editKey u encrypt => nextEdit decrypt u encrypt s phase
  | r                 => ofExcept (r.change decrypt checkBaseUrl s)

end Request

-- The edits of all administrators.
def edits (requests : ι → Request) : Requests ι (Saved F) Phase Failure where
  start      := .waiting
  next i p s := (requests i).next decrypt checkBaseUrl p s

variable {decrypt checkBaseUrl} {requests : ι → Request} {s s' : Saved F} {u : KeyUpdate}
  {encrypt : Seal} {old : Option ProviderKey} {key : ProviderKey} {phase : Phase}

-- What has been found out about a key's edit when it's in a phase.
def Phase.Found (r : Request) : Phase → Prop
  | .waiting        => True
  | .known          => ∀ {u encrypt}, r = .editKey u encrypt → Text.validId u.keyId 256
  | .edited old key => ∀ {u encrypt}, r = .editKey u encrypt →
    Text.validId u.keyId 256 ∧ u.edited old = .ok key ∧
      (old.getD u.fresh).id = u.keyId ∧ (old.getD u.fresh).providerId = u.providerId

-- A key's edit that's done when nothing comes between its steps.
@[mk_iff]
structure KeyChanged (decrypt : String → Option String) (u : KeyUpdate) (encrypt : Seal)
    (s s' : Saved F) : Prop where
  valid    : Text.validId u.keyId 256
  provider : ∃ p, s.providers.lookup u.providerId = some p
  owned    : (!(s.runtimeKeys decrypt).any fun k =>
    k.id = u.keyId && k.providerId ≠ u.providerId) = true
  edited   : ∃ key, u.edited (s.keyNamed decrypt u.keyId) = .ok key ∧
    ∃ sealed, encrypt 0 key.apiKey = .ok sealed ∧
      s.insertKey { key with apiKeyEncrypted := some sealed } = s'

theorem Request.changeKey_eq_ok :
    changeKey decrypt u encrypt s = .ok s' ↔ KeyChanged decrypt u encrypt s s' := by
  rw [changeKey, keyChanged_iff]
  simp only [bind_eq_ok', ensure_eq_ok, ofOption_eq_ok, exists_unit, mapError_eq_ok,
    Saved.upsertKey_eq_ok, exists_and_right]

theorem ofExcept_eq_commits {r : Except Failure (Saved F)} :
    Request.ofExcept r = .commits s ↔ r = .ok s := by
  cases r <;> simp [Request.ofExcept]

theorem ofExcept_ne_reads {r : Except Failure (Saved F)} : Request.ofExcept r ≠ .reads phase := by
  cases r <;> simp [Request.ofExcept]

section

variable {p : Phase}

-- When a key's edit reads, and what it reads.
theorem nextEdit_eq_reads : Request.nextEdit decrypt u encrypt s p = .reads phase ↔
    (p = .waiting ∧ Text.validId u.keyId 256 ∧ (∃ q, s.providers.lookup u.providerId = some q) ∧
      phase = .known) ∨
    (p = .known ∧ (!(s.runtimeKeys decrypt).any fun k =>
        k.id = u.keyId && k.providerId ≠ u.providerId) = true ∧
      ∃ key, u.edited (s.keyNamed decrypt u.keyId) = .ok key ∧
        phase = .edited (s.keyNamed decrypt u.keyId) key) := by
  cases p
  case waiting =>
    rw [Request.nextEdit]
    cases hv : Text.validId u.keyId 256
    case false => simp
    case true =>
      cases hp : s.providers.lookup u.providerId
      case none => simp
      case some =>
        constructor
        case mp =>
          intro h
          cases h
          exact .inl ⟨rfl, rfl, ⟨_, rfl⟩, rfl⟩
        case mpr =>
          rintro (⟨-, -, -, rfl⟩ | ⟨h, -⟩)
          case inl => rfl
          case inr => cases h
  case known =>
    simp only [Request.nextEdit, Saved.keyNamed]
    split
    case isTrue h => simp only [h, reduceCtorEq, Bool.not_true, false_and, and_false, or_self]
    case isFalse h =>
      have h := Bool.eq_false_iff.mpr h
      simp only [h, reduceCtorEq, false_and, false_or, Bool.not_false, true_and]
      split
      case h_1 e he => simp [he]
      case h_2 key hk =>
        constructor
        case mp =>
          intro h
          cases h
          exact ⟨key, hk, rfl⟩
        case mpr =>
          rintro ⟨key', hk', rfl⟩
          cases hk.symm.trans hk'
          rfl
  case edited => simp [Request.nextEdit, ofExcept_ne_reads]

theorem nextEdit_eq_commits : Request.nextEdit decrypt u encrypt s p = .commits s' ↔
    ∃ old key, p = .edited old key ∧ ∃ sealed, encrypt 0 key.apiKey = .ok sealed ∧
      s.insertKey { key with apiKeyEncrypted := some sealed } = s' := by
  cases p
  case waiting =>
    simp only [Request.nextEdit, reduceCtorEq, false_and, exists_false, iff_false]
    split
    case isTrue => nofun
    case isFalse => split <;> nofun
  case known =>
    simp only [Request.nextEdit, reduceCtorEq, false_and, exists_false, iff_false]
    split
    case isTrue => nofun
    case isFalse => split <;> nofun
  case edited old key =>
    rw [Request.nextEdit, ofExcept_eq_commits, mapError_eq_ok, Saved.upsertKey_eq_ok]
    constructor
    case mp => exact fun h => ⟨old, key, rfl, h⟩
    case mpr =>
      rintro ⟨_, _, h, hs⟩
      cases h
      exact hs

end

section

variable {i : ι}

-- The requests that aren't a key's edit have a single step.
def Single (r : Request) : Prop := ∀ u encrypt, r ≠ .editKey u encrypt

theorem next_editKey {p : Phase} (h : requests i = .editKey u encrypt) :
    (edits decrypt checkBaseUrl requests).next i p s = Request.nextEdit decrypt u encrypt s p := by
  rw [edits]
  simp only [h, Request.next]

theorem next_single {p : Phase} (h : Single (requests i)) :
    (edits decrypt checkBaseUrl requests).next i p s =
      Request.ofExcept ((requests i).change decrypt checkBaseUrl s) := by
  rw [edits]
  simp only
  cases hr : requests i
  case editKey u encrypt => exact absurd hr (h u encrypt)
  all_goals rfl

theorem single_or_editKey (r : Request) : Single r ∨ ∃ u encrypt, r = .editKey u encrypt := by
  by_cases h : ∃ u encrypt, r = .editKey u encrypt
  case pos => exact .inr h
  case neg =>
    push Not at h
    exact .inl h

-- A request that runs alone does what it's for at once.
theorem alone_iff : (edits decrypt checkBaseUrl requests).Alone i s s' ↔
    (requests i).change decrypt checkBaseUrl s = .ok s' := by
  rw [Requests.Alone, Requests.aloneFrom_iff]
  obtain h | ⟨u, encrypt, h⟩ := single_or_editKey (requests i)
  case inl =>
    rw [next_single h, ofExcept_eq_commits]
    refine or_iff_left ?_
    rintro ⟨_, hr, _⟩
    exact absurd hr ofExcept_ne_reads
  case inr =>
    have hc : (requests i).change decrypt checkBaseUrl s = .ok s' ↔
        KeyChanged decrypt u encrypt s s' := by
      rw [h, Request.change, Request.changeKey_eq_ok]
    rw [hc, next_editKey h, nextEdit_eq_commits]
    constructor
    case mp =>
      rintro (⟨_, _, hp, _⟩ | ⟨p', hp, ha⟩)
      case inl => cases hp
      case inr =>
        obtain ⟨-, hv, hq, rfl⟩ | ⟨hp, -⟩ := nextEdit_eq_reads.mp hp
        case inr => cases hp
        case inl =>
          obtain ha | ⟨p'', hp, ha⟩ := Requests.aloneFrom_iff.mp ha
          case inl =>
            rw [next_editKey h] at ha
            have ⟨_, _, hp, _⟩ := nextEdit_eq_commits.mp ha
            cases hp
          case inr =>
            rw [next_editKey h] at hp
            obtain ⟨hp, -⟩ | ⟨-, ho, key, hk, rfl⟩ := nextEdit_eq_reads.mp hp
            case inl => cases hp
            case inr =>
              obtain ha | ⟨_, hp, _⟩ := Requests.aloneFrom_iff.mp ha
              case inl =>
                rw [next_editKey h] at ha
                have ⟨_, _, hp, hs⟩ := nextEdit_eq_commits.mp ha
                cases hp
                exact ⟨hv, hq, ho, key, hk, hs⟩
              case inr =>
                rw [next_editKey h] at hp
                obtain ⟨hp, -⟩ | ⟨hp, -⟩ := nextEdit_eq_reads.mp hp <;> cases hp
    case mpr =>
      rintro ⟨hv, hq, ho, key, hk, hs⟩
      refine .inr ⟨.known, nextEdit_eq_reads.mpr (.inl ⟨rfl, hv, hq, rfl⟩), ?_⟩
      refine .reads ?_ (.commits (p := .edited (s.keyNamed decrypt u.keyId) key) ?_)
      case refine_1 =>
        rw [next_editKey h]
        exact nextEdit_eq_reads.mpr (.inr ⟨rfl, ho, key, hk, rfl⟩)
      case refine_2 =>
        rw [next_editKey h]
        exact nextEdit_eq_commits.mpr ⟨_, key, rfl, hs⟩

end

theorem notFound_eq_ok {missing : String} {r : Except BillingError (Option α)} {a : α} :
    notFound missing r = .ok a ↔ r = .ok (some a) := by
  match r with
  | .error e     => simp [notFound]
  | .ok none     => simp [notFound]
  | .ok (some a) => simp [notFound]

-- The key that's saved belongs to the edit's provider.
theorem KeyChanged.providerId (h : s.Keyed) (hc : KeyChanged decrypt u encrypt s s')
    (hk : u.edited (s.keyNamed decrypt u.keyId) = .ok key) : key.providerId = u.providerId := by
  have ⟨_, _, he⟩ := KeyUpdate.edited_eq_ok.mp hk
  rw [← he, KeyUpdate.unnamed_providerId]
  cases hn : s.keyNamed decrypt u.keyId
  case none => rfl
  case some k =>
    by_contra hp
    have ho := (Saved.foreign_iff h).mpr ⟨k, hn, hp⟩
    have hc := hc.owned
    rw [ho] at hc
    cases hc

theorem KeyChanged.id (h : s.Keyed) (hk : u.edited (s.keyNamed decrypt u.keyId) = .ok key) :
    key.id = u.keyId := by
  have ⟨_, _, he⟩ := KeyUpdate.edited_eq_ok.mp hk
  rw [← he, KeyUpdate.unnamed_id]
  cases hn : s.keyNamed decrypt u.keyId
  case none => rfl
  case some k =>
    rw [Saved.keyNamed_eq h] at hn
    have ⟨k', hl, hk'⟩ := Option.map_eq_some_iff.mp hn
    rw [Option.getD_some, ← hk', Saved.withSecret_id, h.keys hl]

theorem KeyChanged.sound (h : s.Sound) (hc : KeyChanged decrypt u encrypt s s') : s'.Sound := by
  have ⟨key, hk, sealed, _, hs⟩ := hc.edited
  rw [← hs]
  refine h.insertKey ?_
  have ⟨_, hp⟩ := hc.provider
  exact hc.providerId h.toKeyed hk ▸ AList.mem_of_lookup hp

-- Whatever is requested, every key belongs to a provider that exists.
theorem Request.sound_of_change {r : Request} (h : s.Sound)
    (hc : r.change decrypt checkBaseUrl s = .ok s') : s'.Sound := by
  cases r
  case editKey u encrypt => exact (changeKey_eq_ok.mp hc).sound h
  case deleteKey =>
    have he := Saved.deleteProviderKey_eq_ok (notFound_eq_ok.mp hc)
    exact he ▸ h.erase_key
  case deleteProvider =>
    have ⟨hk, he⟩ := Saved.deleteProvider_eq_ok (notFound_eq_ok.mp hc)
    exact he ▸ h.erase_provider hk
  case editProvider e =>
    have ⟨_, _, hn⟩ := bind_eq_ok'.mp hc
    have ⟨p, hp, he⟩ := Option.map_eq_some_iff.mp (Except.ok.inj (notFound_eq_ok.mp hn))
    have hid : p.id = e.id := h.toKeyed.providers hp
    have hs := h.insert_provider (show (e.apply p).id = e.id from hid)
    exact he ▸ hs
  case setEnabled providerId enabled =>
    have ⟨_, _, hn⟩ := bind_eq_ok'.mp hc
    have ⟨p, hp, he⟩ := Option.map_eq_some_iff.mp (Except.ok.inj (notFound_eq_ok.mp hn))
    have hid : p.id = Text.trim providerId := h.toKeyed.providers hp
    have hs := h.insert_provider (show { p with enabled }.id = Text.trim providerId from hid)
    exact he ▸ hs
  case importAll items encrypt =>
    have ⟨_, _, hn⟩ := bind_eq_ok'.mp hc
    refine h.upsert ?_ (mapError_eq_ok.mp hn)
    intro key hk
    have ⟨item, hm, he⟩ := List.mem_map.mp hk
    exact ⟨item.toProvider, List.mem_map_of_mem hm, he ▸ rfl⟩

-- A key's edit that's saved when the provider is still there, and the key, but for what the edit
-- names, is still as it was read.
def AsRead (decrypt : String → Option String) (requests : ι → Request)
    (w : World ι (Saved F) Phase) (i : ι) : Prop :=
  ∀ {u encrypt old key}, requests i = .editKey u encrypt → w.phase i = some (.edited old key) →
    u.providerId ∈ w.shared.providers ∧
      u.unnamed ((w.shared.keyNamed decrypt u.keyId).getD u.fresh) = u.unnamed (old.getD u.fresh)

theorem found_of_reads {i : ι} {p : Phase}
    (hf : p.Found (requests i))
    (hr : (edits decrypt checkBaseUrl requests).next i p s = .reads phase) :
    phase.Found (requests i) := by
  obtain h | ⟨u, encrypt, h⟩ := single_or_editKey (requests i)
  case inl =>
    rw [next_single h] at hr
    exact absurd hr ofExcept_ne_reads
  case inr =>
    rw [next_editKey h] at hr
    obtain ⟨-, hv, -, rfl⟩ | ⟨rfl, ho, key, hk, rfl⟩ := nextEdit_eq_reads.mp hr
    case inl =>
      intro u' _ h'
      cases h.symm.trans h'
      exact hv
    case inr =>
      intro u' _ h'
      cases h.symm.trans h'
      refine ⟨hf h, hk, ?_⟩
      cases hn : s.keyNamed decrypt u.keyId
      case none => exact ⟨rfl, rfl⟩
      case some k =>
        have hid : k.id = u.keyId := by simpa using List.find?_some hn
        refine ⟨hid, ?_⟩
        by_contra hp
        have ho := List.any_eq_false.mp (Bool.not_eq_true' _ ▸ ho) k (List.mem_of_find?_eq_some hn)
        exact ho (by simp [hid, show ¬k.providerId = u.providerId from hp])

-- Such an edit does what it would at once.
theorem alone_of_asRead {w : World ι (Saved F) Phase} {i : ι} {p : Phase}
    (hr : AsRead decrypt requests w i) (h : w.shared.Sound) (hf : p.Found (requests i))
    (hp : w.phase i = some p)
    (hn : (edits decrypt checkBaseUrl requests).next i p w.shared = .commits s) :
    (edits decrypt checkBaseUrl requests).Alone i w.shared s := by
  rw [alone_iff]
  obtain hs | ⟨u, encrypt, hs⟩ := single_or_editKey (requests i)
  case inl =>
    rw [next_single hs] at hn
    exact ofExcept_eq_commits.mp hn
  case inr =>
    rw [next_editKey hs] at hn
    have ⟨old, key, he, sealed, hseal, hi⟩ := nextEdit_eq_commits.mp hn
    subst he
    have ⟨hv, hk, hid, hpid⟩ := hf hs
    have ⟨hprov, hun⟩ := hr hs hp
    have hk' := KeyUpdate.edited_of_unnamed hun hk
    rw [hs, Request.change, Request.changeKey_eq_ok]
    exact {
      valid    := hv
      provider := AList.mem_iff_lookup.mp hprov
      owned    := by
        rw [Bool.not_eq_true', Bool.eq_false_iff]
        intro ho
        have ⟨k, hk, hne⟩ := (Saved.foreign_iff h.toKeyed).mp ho
        rw [hk, Option.getD_some] at hun
        have hpid' := congrArg ProviderKey.providerId hun
        rw [KeyUpdate.unnamed_providerId, KeyUpdate.unnamed_providerId, hpid] at hpid'
        exact hne hpid'
      edited   := ⟨_, hk', sealed, hseal, hi⟩
    }

-- The request changes nothing but what it names.
def Named (decrypt : String → Option String) (s s' : Saved F) : Request → Prop
  | .editKey u _ =>
    s'.providers = s.providers ∧
    (∀ id ≠ u.keyId, s'.keys.lookup id = s.keys.lookup id) ∧
    ∃ key, s'.keys.lookup u.keyId = some key ∧ key.providerId = u.providerId ∧
      ∀ k, s.keys.lookup u.keyId = some k →
        u.unnamed key = u.unnamed (Saved.withSecret decrypt k)
  | .deleteKey _ keyId => s'.providers = s.providers ∧ s'.keys = s.keys.erase keyId
  | .deleteProvider id => s'.keys = s.keys ∧ s'.providers = s.providers.erase id
  | .editProvider e =>
    s'.keys = s.keys ∧ ∃ p, s.providers.lookup e.id = some p ∧
      s'.providers = s.providers.insert e.id (e.apply p)
  | .setEnabled providerId enabled =>
    s'.keys = s.keys ∧ ∃ p, s.providers.lookup (Text.trim providerId) = some p ∧
      s'.providers = s.providers.insert (Text.trim providerId) { p with enabled }
  | .importAll items _ =>
    (∀ id, (∀ item ∈ items, item.id ≠ id) → s'.providers.lookup id = s.providers.lookup id) ∧
    ∀ id, (∀ item ∈ items, item.toKey.id ≠ id) → s'.keys.lookup id = s.keys.lookup id

theorem KeyChanged.named (h : s.Keyed) (hc : KeyChanged decrypt u encrypt s s') :
    Named decrypt s s' (.editKey u encrypt) := by
  have ⟨key, hk, sealed, _, hs⟩ := hc.edited
  have hid := KeyChanged.id h hk
  have hpid := hc.providerId h hk
  rw [← hs]
  refine ⟨rfl, ?_, { key with apiKeyEncrypted := some sealed }, ?_, hpid, ?_⟩
  case refine_1 =>
    intro id hne
    rw [Saved.insertKey, AList.lookup_insert_ne (hid ▸ hne)]
  case refine_2 =>
    rw [Saved.insertKey, hid]
    exact AList.lookup_insert _
  case refine_3 =>
    intro k hl
    rw [KeyUpdate.unnamed_of_edited hk, Saved.keyNamed_eq h, hl]
    rfl

theorem Request.named_of_change {r : Request} (h : s.Keyed)
    (hc : r.change decrypt checkBaseUrl s = .ok s') : Named decrypt s s' r := by
  cases r
  case editKey u encrypt => exact (changeKey_eq_ok.mp hc).named h
  case deleteKey =>
    cases Saved.deleteProviderKey_eq_ok (notFound_eq_ok.mp hc)
    exact ⟨rfl, rfl⟩
  case deleteProvider =>
    cases (Saved.deleteProvider_eq_ok (notFound_eq_ok.mp hc)).2
    exact ⟨rfl, rfl⟩
  case editProvider e =>
    have ⟨_, _, hn⟩ := bind_eq_ok'.mp hc
    have ⟨p, hp, he⟩ := Option.map_eq_some_iff.mp (Except.ok.inj (notFound_eq_ok.mp hn))
    exact he ▸ ⟨rfl, p, hp, rfl⟩
  case setEnabled =>
    have ⟨_, _, hn⟩ := bind_eq_ok'.mp hc
    have ⟨p, hp, he⟩ := Option.map_eq_some_iff.mp (Except.ok.inj (notFound_eq_ok.mp hn))
    exact he ▸ ⟨rfl, p, hp, rfl⟩
  case importAll items encrypt =>
    have ⟨_, _, hn⟩ := bind_eq_ok'.mp hc
    have ⟨keys, hs, hu⟩ := bind_eq_ok'.mp (mapError_eq_ok.mp hn)
    cases hu
    constructor
    case left =>
      intro id hne
      rw [Saved.providers_insertKeys]
      refine Saved.lookup_insertProviders ?_
      intro p hp
      have ⟨item, hm, he⟩ := List.mem_map.mp hp
      exact he ▸ hne item hm
    case right =>
      intro id hne
      have hk : ∀ key ∈ keys, key.id ≠ id := by
        intro key hm
        have ⟨k, hm, _, he⟩ := Saved.sealKeys_eq_ok hs key hm
        have ⟨item, hm, hi⟩ := List.mem_map.mp hm
        rw [he, ← hi]
        exact hne item hm
      rw [Saved.lookup_insertKeys hk, Saved.keys_insertProviders]

end

namespace Sample

def provider : Provider where
  id      := "p"
  name    := "P"
  format  := .openAi
  baseUrl := "https://p"

def key : ProviderKey where
  id         := "k"
  providerId := "p"
  apiKey     := "secret"

def saved : Saved Nat := ⟨.singleton "p" provider, .singleton "k" key, []⟩

def heavier : KeyUpdate where
  providerId    := "p"
  keyId         := "k"
  allowedModels := some []
  weight        := some 2

def encrypt : Seal := fun _ secret => .ok secret

def noSecret : String → Option String := fun _ => none

def noMessage : String → Option String := fun _ => none

theorem saved_sound : saved.Sound where
  providers {id q} h := by
    rw [← AList.mem_entries_iff] at h
    cases List.mem_singleton.mp h
    rfl
  keys {id q} h := by
    rw [← AList.mem_entries_iff] at h
    cases List.mem_singleton.mp h
    rfl
  owned {id q} h := by
    rw [← AList.mem_entries_iff] at h
    cases List.mem_singleton.mp h
    exact List.mem_singleton.mpr rfl

def weighed : ProviderKey := { key with allowedModels := some [], weight := 2 }

-- The second and third request take away what the first one edits.
def requests (i : Fin 3) : Request :=
  match i with
  | 0 => .editKey heavier encrypt
  | 1 => .deleteKey "p" "k"
  | 2 => .deleteProvider "p"

abbrev system : Requests (Fin 3) (Saved Nat) Phase Failure := edits noSecret noMessage requests

theorem reads_provider : system.next 0 .waiting saved = .reads .known := by
  rfl

theorem reads_key : system.next 0 .known saved = .reads (.edited (some key) weighed) := by
  rfl

def withoutKey : Saved Nat := { saved with keys := ∅ }

def empty : Saved Nat := ⟨∅, ∅, []⟩

def stored : ProviderKey := { weighed with apiKeyEncrypted := some "secret" }

theorem deletes_key : system.next 1 .waiting saved = .commits withoutKey := by
  rfl

theorem deletes_provider : system.next 2 .waiting withoutKey = .commits empty := by
  rfl

theorem saves_key (s : Saved Nat) :
    system.next 0 (.edited (some key) weighed) s = .commits (s.insertKey stored) := by
  rfl

end Sample

end Providers
