import Superkiro.Billing.Catalog
import Superkiro.Billing.Error
import Superkiro.Gateway.KeyPool
import Superkiro.Lib.Fallible
import Superkiro.Lib.Table
import Superkiro.Lib.Text

-- The providers and keys an administrator edits, with all they're saved with.
namespace Providers

open Except
open Billing (BillingError ModelMap)
open Gateway (HealthState)

inductive ProviderFormat
  | openAi
  | anthropic
  deriving DecidableEq

structure Provider where
  id            : String
  name          : String
  format        : ProviderFormat
  baseUrl       : String
  enabled       : Bool := true
  weight        : Nat := 1
  healthState   : HealthState := .healthy
  cooldownUntil : Option Nat := none
  groupId       : Option String := none
  deriving DecidableEq

structure ProviderKey where
  -- `none` allows every model.
  allowedModels   : Option (List String) := none
  id              : String
  providerId      : String
  apiKey          : String
  apiKeyEncrypted : Option String := none
  enabled         : Bool := true
  weight          : Nat := 1
  healthState     : HealthState := .healthy
  cooldownUntil   : Option Nat := none
  deriving DecidableEq

def ProviderKey.supportsModel (key : ProviderKey) (model : String) : Bool :=
  key.allowedModels.all fun models => models.any (· = model)

-- What of the billing state the edits read and change. Models aren't edited with providers.
structure Saved (F : Type) where
  providers : Table String Provider
  keys      : Table String ProviderKey
  modelMaps : List (ModelMap F)

-- The texts of an ordered set.
def ordered (texts : List String) : List String := texts.dedup.insertionSort (· ≤ ·)

-- What encrypts the secret of a request's `n`th key. It fails without a master key.
abbrev Seal := Nat → String → Except BillingError String

namespace Saved

variable {F : Type} (s : Saved F)

-- Keys are encrypted before anything is read.
def sealKeys (encrypt : Seal) (keys : List ProviderKey) : Except BillingError (List ProviderKey) :=
  keys.zipIdx.mapM fun (key, n) =>
    (encrypt n key.apiKey).map fun sealed => { key with apiKeyEncrypted := some sealed }

-- An imported provider stays in the group it's in.
def keepGroup (preserve : Bool) (provider : Provider) : Provider :=
  match s.providers.lookup provider.id with
  | some existing =>
    if preserve then { provider with groupId := existing.groupId } else provider
  | none => provider

def insertProvider (preserve : Bool) (provider : Provider) : Saved F :=
  { s with providers := s.providers.insert provider.id (s.keepGroup preserve provider) }

def insertKey (key : ProviderKey) : Saved F := { s with keys := s.keys.insert key.id key }

def upsertProviderBatch (encrypt : Seal) (providers : List Provider) (keys : List ProviderKey)
    (preserve : Bool) : Except BillingError (Saved F) := do
  let keys ← sealKeys encrypt keys
  return keys.foldl insertKey (providers.foldl (·.insertProvider preserve) s)

-- The providers of a batch as they're committed, which the caller gets back.
def committed (s : Saved F) (preserve : Bool) : List Provider → List Provider
  | []                    => []
  | provider :: providers =>
    s.keepGroup preserve provider :: (s.insertProvider preserve provider).committed preserve providers

def listProviders : List Provider :=
  s.providers.values.insertionSort fun p₁ p₂ => p₁.id ≤ p₂.id

-- The keys with their secrets, which `decrypt` reads where they are only saved encrypted.
def withSecret (decrypt : String → Option String) (key : ProviderKey) : ProviderKey :=
  if key.apiKey = "" then { key with apiKey := (key.apiKeyEncrypted.bind decrypt).getD "" } else key

def runtimeKeys (decrypt : String → Option String) : List ProviderKey :=
  (s.keys.values.map (withSecret decrypt)).insertionSort fun k₁ k₂ => k₁.id ≤ k₂.id

-- `none` says that there's no such provider, or no such key of the provider.
def setProviderEnabled (providerId : String) (enabled : Bool) : Option (Saved F) :=
  (s.providers.lookup providerId).map fun provider =>
    { s with providers := s.providers.insert providerId { provider with enabled } }

def editProvider (providerId : String) (edit : Provider → Provider) : Option (Saved F) :=
  (s.providers.lookup providerId).map fun provider =>
    { s with providers := s.providers.insert providerId (edit provider) }

def serves (key : ProviderKey) (m : ModelMap F) : Bool :=
  key.providerId = m.targetProviderId && key.enabled && key.supportsModel m.targetModel

def deleteProviderKey (providerId keyId : String) : Except BillingError (Option (Saved F)) :=
  match (s.keys.lookup keyId).filter fun key => key.providerId = providerId with
  | none     => return none
  | some key => do
    let keys := s.keys.erase keyId
    let stranded := s.modelMaps.filter fun m =>
      m.isListed && serves key m && !keys.values.any (serves · m)
    ensure stranded.isEmpty (.invalidState ("Key still serves visible models: " ++
      Text.join ", " (ordered (stranded.map (·.exposedModelId)))))
    return some { s with keys }

def deleteProvider (providerId : String) : Except BillingError (Option (Saved F)) :=
  match s.providers.lookup providerId with
  | none   => return none
  | some _ => do
    let models := s.modelMaps.filter fun m =>
      m.targetProviderId = providerId || m.fallbackChain.any (·.providerId = providerId)
    ensure models.isEmpty (.invalidState ("Provider still routes models: " ++
      Text.join ", " (ordered (models.map (·.exposedModelId)))))
    let keys := s.keys.values.filter fun key => key.providerId = providerId
    ensure keys.isEmpty (.invalidState ("Provider still has Keys: " ++
      Text.join ", " (ordered (keys.map (·.id)))))
    return some { s with providers := s.providers.erase providerId }

end Saved

-- How a request is answered that isn't done.
structure Failure where
  status : Nat
  error  : String
  deriving DecidableEq

structure KeyUpdate where
  providerId    : String
  keyId         : String
  apiKey        : Option String := none
  allowedModels : Option (List String) := none
  enabled       : Option Bool := none
  weight        : Option Nat := none

namespace KeyUpdate

variable (u : KeyUpdate)

def fresh : ProviderKey where
  id         := u.keyId
  providerId := u.providerId
  apiKey     := ""

-- A key is healthy again with another secret.
def renewed (secret : String) (key : ProviderKey) : ProviderKey :=
  if secret ≠ key.apiKey then
    { key with healthState := .healthy, cooldownUntil := none, apiKey := secret }
  else { key with apiKey := secret }

-- The key that's saved, from the one that was read.
def edited (old : Option ProviderKey) : Except Failure ProviderKey := do
  let key := old.getD u.fresh
  let key ←
    match u.apiKey with
    | none        => pure key
    | some secret => do
      ensure (!(Text.isBlank secret || 4096 < Text.len secret || secret.toList.any Text.isControl))
        (⟨400, "Invalid API key"⟩ : Failure)
      pure (renewed secret key)
  ensure (key.apiKey ≠ "") (⟨400, "API key required for new key"⟩ : Failure)
  let models ← ofOption u.allowedModels
    (⟨400, "Explicit allowed_models required; empty array denies all models"⟩ : Failure)
  ensure (models.length ≤ 1000 && models.all (Text.validId · 256))
    (⟨400, "Invalid model permissions"⟩ : Failure)
  let key :=
    { key with allowedModels := some (ordered models), enabled := u.enabled.getD key.enabled }
  match u.weight with
  | none        => return key
  | some weight => do
    ensure (weight ≠ 0 && weight ≤ 1000) (⟨400, "Weight must be 1..1000"⟩ : Failure)
    return { key with weight }

-- What an edit doesn't name of a key. A key's health is named with its secret.
def unnamed (key : ProviderKey) : ProviderKey :=
  let key :=
    match u.apiKey with
    | none        => key
    | some secret => renewed secret key
  { key with
    allowedModels   := none
    apiKeyEncrypted := none
    enabled         := u.enabled.getD key.enabled
    weight          := u.weight.getD key.weight }

-- An edit that's taken if the key has this secret then.
@[mk_iff]
structure Accepted (models : List String) (secret : String) : Prop where
  named   : ∀ secret ∈ u.apiKey,
    !(Text.isBlank secret || 4096 < Text.len secret || secret.toList.any Text.isControl)
  secret  : secret ≠ ""
  chosen  : u.allowedModels = some models
  allowed : models.length ≤ 1000 && models.all (Text.validId · 256)
  weight  : ∀ weight ∈ u.weight, weight ≠ 0 && weight ≤ 1000

variable {u} {old now : Option ProviderKey} {key : ProviderKey}

@[simp]
theorem renewed_id : (renewed secret key).id = key.id := by
  unfold renewed
  split <;> rfl

@[simp]
theorem renewed_providerId : (renewed secret key).providerId = key.providerId := by
  unfold renewed
  split <;> rfl

@[simp]
theorem renewed_apiKeyEncrypted : (renewed secret key).apiKeyEncrypted = key.apiKeyEncrypted := by
  unfold renewed
  split <;> rfl

@[simp]
theorem unnamed_id : (u.unnamed key).id = key.id := by
  rw [unnamed]
  cases u.apiKey <;> simp

@[simp]
theorem unnamed_providerId : (u.unnamed key).providerId = key.providerId := by
  rw [unnamed]
  cases u.apiKey <;> simp

@[simp]
theorem renewed_apiKey : (renewed secret key).apiKey = secret := by
  unfold renewed
  split <;> rfl

theorem renewed_of_eq (h : key.apiKey = secret) : renewed secret key = key := by
  subst h
  exact if_neg (not_not.mpr rfl)

-- Keys are saved with what the edit names, and with the rest as it was read.
theorem edited_eq_ok : u.edited old = .ok key ↔
    ∃ models, u.Accepted models (u.unnamed (old.getD u.fresh)).apiKey ∧
      { u.unnamed (old.getD u.fresh) with
        allowedModels   := some (ordered models)
        apiKeyEncrypted := (old.getD u.fresh).apiKeyEncrypted } = key := by
  simp only [accepted_iff]
  rw [edited, unnamed]
  generalize old.getD u.fresh = read
  cases hs : u.apiKey
  case none =>
    simp only [pure_bind, bind_eq_ok', ensure_eq_ok, ofOption_eq_ok, exists_unit]
    cases hw : u.weight
    case none => simp [pure_eq_ok, and_assoc]
    case some weight =>
      simp only [bind_eq_ok', ensure_eq_ok, exists_unit, pure_eq_ok]
      simp [and_assoc]
  case some secret =>
    simp only [bind_eq_ok', ensure_eq_ok, ofOption_eq_ok, exists_unit, pure_eq_ok]
    cases hw : u.weight
    case none => simp [pure_eq_ok, and_assoc]
    case some weight =>
      simp only [bind_eq_ok', ensure_eq_ok, exists_unit, pure_eq_ok]
      simp [and_assoc]

theorem unnamed_of_edited (h : u.edited old = .ok key) {sealed : Option String} :
    u.unnamed { key with apiKeyEncrypted := sealed } = u.unnamed (old.getD u.fresh) := by
  have ⟨models, _, hk⟩ := edited_eq_ok.mp h
  have getD_getD {α : Type} {o : Option α} {a : α} : o.getD (o.getD a) = o.getD a := by
    cases o <;> rfl
  rw [← hk, unnamed, unnamed]
  cases hs : u.apiKey
  case none => simp [getD_getD]
  case some secret => simp [renewed_of_eq, getD_getD]

-- The same is saved from keys that only differ in what the edit names.
theorem edited_of_unnamed (hn : u.unnamed (now.getD u.fresh) = u.unnamed (old.getD u.fresh))
    (h : u.edited old = .ok key) :
    u.edited now = .ok { key with apiKeyEncrypted := (now.getD u.fresh).apiKeyEncrypted } := by
  have ⟨models, ha, hk⟩ := edited_eq_ok.mp h
  refine edited_eq_ok.mpr ⟨models, hn ▸ ha, ?_⟩
  rw [hn, ← hk]

end KeyUpdate

structure ProviderEdit where
  id      : String
  name    : Option String := none
  baseUrl : Option String := none
  format  : Option ProviderFormat := none

namespace ProviderEdit

variable (e : ProviderEdit)

-- `checkBaseUrl` tells why an address isn't taken.
def check (checkBaseUrl : String → Option String) : Except Failure Unit := do
  ensure (e.name.isSome || e.baseUrl.isSome || e.format.isSome)
    (⟨400, "Nothing to update"⟩ : Failure)
  ensure (e.name.all (Text.validId · 256)) (⟨400, "Invalid provider name"⟩ : Failure)
  refuse (e.baseUrl.bind checkBaseUrl) fun message => (⟨400, message⟩ : Failure)

def apply (provider : Provider) : Provider :=
  { provider with
    name    := (e.name.map Text.trim).getD provider.name
    baseUrl := e.baseUrl.getD provider.baseUrl
    format  := e.format.getD provider.format }

end ProviderEdit

-- A provider of another client's export.
structure ImportedProvider where
  id      : String
  name    : String
  format  : ProviderFormat
  baseUrl : String
  apiKey  : String
  models  : List String
  enabled : Bool

namespace ImportedProvider

variable (item : ImportedProvider)

def toProvider : Provider where
  id      := item.id
  name    := item.name
  format  := item.format
  baseUrl := item.baseUrl
  enabled := item.enabled

def toKey : ProviderKey where
  id            := item.id ++ "-key-1"
  providerId    := item.id
  apiKey        := item.apiKey
  allowedModels := some item.models

def check (checkBaseUrl : String → Option String) : Except Failure Unit := do
  refuse (checkBaseUrl item.baseUrl) fun message => (⟨400, message⟩ : Failure)
  ensure (!(Text.isBlank item.apiKey || 4096 < item.apiKey.length))
    (⟨400, "provider API key is invalid"⟩ : Failure)

end ImportedProvider

namespace Saved

variable {F : Type} {s s' : Saved F} {decrypt : String → Option String} {encrypt : Seal}
  {key key' : ProviderKey} {provider : Provider} {id : String}

-- Providers and keys are saved under their ids.
structure Keyed (s : Saved F) : Prop where
  providers : ∀ {id p}, s.providers.lookup id = some p → p.id = id
  keys      : ∀ {id k}, s.keys.lookup id = some k → k.id = id

-- Besides, no key belongs to a provider that doesn't exist.
structure Sound (s : Saved F) : Prop extends Keyed s where
  owned : ∀ {id k}, s.keys.lookup id = some k → k.providerId ∈ s.providers

@[simp]
theorem withSecret_id : (withSecret decrypt key).id = key.id := by
  unfold withSecret
  split <;> rfl

@[simp]
theorem withSecret_providerId : (withSecret decrypt key).providerId = key.providerId := by
  unfold withSecret
  split <;> rfl

theorem mem_runtimeKeys : key ∈ s.runtimeKeys decrypt ↔
    ∃ id k, s.keys.lookup id = some k ∧ withSecret decrypt k = key := by
  rw [runtimeKeys, List.mem_insertionSort, List.mem_map]
  simp only [AList.mem_values]
  constructor
  case mp => exact fun ⟨k, ⟨id, h⟩, hk⟩ => ⟨id, k, h, hk⟩
  case mpr => exact fun ⟨id, k, h, hk⟩ => ⟨k, ⟨id, h⟩, hk⟩

-- The key that's found by an id.
def keyNamed (decrypt : String → Option String) (s : Saved F) (id : String) : Option ProviderKey :=
  (s.runtimeKeys decrypt).find? (·.id = id)

theorem keyNamed_eq (h : s.Keyed) :
    s.keyNamed decrypt id = (s.keys.lookup id).map (withSecret decrypt) := by
  have hm : ∀ k, k ∈ s.runtimeKeys decrypt ↔
      ∃ id, (s.keys.mapValues fun _ => withSecret decrypt).lookup id = some k := by
    intro k
    rw [mem_runtimeKeys]
    simp only [AList.lookup_mapValues, Option.map_eq_some_iff]
  rw [keyNamed, AList.find?_of_keyed hm, AList.lookup_mapValues]
  intro id k hl
  rw [AList.lookup_mapValues] at hl
  have ⟨k', hl, he⟩ := Option.map_eq_some_iff.mp hl
  rw [← he, withSecret_id, h.keys hl]

theorem nodup_runtimeKeys (h : s.Keyed) : ((s.runtimeKeys decrypt).map (·.id)).Nodup := by
  have hp := (List.perm_insertionSort (fun k₁ k₂ : ProviderKey => k₁.id ≤ k₂.id)
    (s.keys.values.map (withSecret decrypt))).map (·.id)
  rw [runtimeKeys, hp.nodup_iff, List.map_map]
  exact AList.nodup_values Function.injective_id fun hl => withSecret_id.trans (h.keys hl)

theorem find?_listProviders (h : s.Keyed) :
    s.listProviders.find? (·.id = id) = s.providers.lookup id := by
  refine AList.find?_of_keyed ?_ h.providers
  intro p
  rw [listProviders, List.mem_insertionSort, AList.mem_values]

theorem nodup_listProviders (h : s.Keyed) : (s.listProviders.map (·.id)).Nodup := by
  have hp := (List.perm_insertionSort (fun p₁ p₂ : Provider => p₁.id ≤ p₂.id)
    s.providers.values).map (·.id)
  rw [listProviders, hp.nodup_iff]
  exact AList.nodup_values Function.injective_id h.providers

-- A key of another provider has the id.
theorem foreign_iff (h : s.Keyed) {providerId : String} :
    (s.runtimeKeys decrypt).any (fun k => k.id = id && k.providerId ≠ providerId) = true ↔
      ∃ k, s.keyNamed decrypt id = some k ∧ k.providerId ≠ providerId := by
  rw [keyNamed_eq h, List.any_eq_true]
  constructor
  case mp =>
    rintro ⟨key, hm, hk⟩
    have ⟨id', k, hl, he⟩ := mem_runtimeKeys.mp hm
    simp only [Bool.and_eq_true, decide_eq_true_eq] at hk
    have hid : id' = id := by
      rw [← h.keys hl, ← hk.1, ← he, withSecret_id]
    exact ⟨key, by rw [← hid, hl, Option.map_some, he], hk.2⟩
  case mpr =>
    rintro ⟨key, hk, hp⟩
    have ⟨k, hl, he⟩ := Option.map_eq_some_iff.mp hk
    refine ⟨key, mem_runtimeKeys.mpr ⟨id, k, hl, he⟩, ?_⟩
    rw [Bool.and_eq_true, decide_eq_true_eq, decide_eq_true_eq]
    exact ⟨by rw [← he, withSecret_id, h.keys hl], hp⟩

theorem upsertKey_eq_ok : s.upsertProviderBatch encrypt [] [key] false = .ok s' ↔
    ∃ sealed, encrypt 0 key.apiKey = .ok sealed ∧
      s.insertKey { key with apiKeyEncrypted := some sealed } = s' := by
  rw [upsertProviderBatch, sealKeys]
  cases he : encrypt 0 key.apiKey
  case error e => simp [he, Except.map]
  case ok sealed => simp [he, Except.map]

@[simp]
theorem keepGroup_id : (s.keepGroup preserve provider).id = provider.id := by
  unfold keepGroup
  split
  case h_1 => split <;> rfl
  case h_2 => rfl

theorem Keyed.insertProvider (h : s.Keyed) : (s.insertProvider preserve provider).Keyed where
  providers hp := by
    obtain ⟨he, hv⟩ | ⟨-, hp⟩ := AList.lookup_insert_iff.mp hp
    case inl => rw [← hv, he, keepGroup_id]
    case inr => exact h.providers hp
  keys hk := h.keys hk

theorem Keyed.insertKey (h : s.Keyed) : (s.insertKey key).Keyed where
  providers hp := h.providers hp
  keys hk := by
    obtain ⟨he, hv⟩ | ⟨-, hk⟩ := AList.lookup_insert_iff.mp hk
    case inl => rw [← hv, he]
    case inr => exact h.keys hk

theorem Sound.insertProvider (h : s.Sound) : (s.insertProvider preserve provider).Sound where
  toKeyed := h.toKeyed.insertProvider
  owned hk := (AList.mem_insert _).mpr (.inr (h.owned hk))

theorem Sound.insertKey (h : s.Sound) (hp : key.providerId ∈ s.providers) :
    (s.insertKey key).Sound where
  toKeyed := h.toKeyed.insertKey
  owned hk := by
    obtain ⟨-, hv⟩ | ⟨-, hk⟩ := AList.lookup_insert_iff.mp hk
    case inl => exact hv ▸ hp
    case inr => exact h.owned hk

-- Keys are sealed with all else as it was.
theorem sealKeys_eq_ok {keys sealed : List ProviderKey} (h : sealKeys encrypt keys = .ok sealed) :
    ∀ key ∈ sealed, ∃ k ∈ keys, ∃ text, key = { k with apiKeyEncrypted := some text } := by
  intro key hk
  have ⟨⟨k, n⟩, hm, he⟩ := (mapM_eq_ok h).2 key hk
  refine ⟨k, List.fst_mem_of_mem_zipIdx hm, ?_⟩
  cases ht : encrypt n k.apiKey
  case error => simp [ht, Except.map] at he
  case ok text =>
    simp only [ht, Except.map, Except.ok.injEq] at he
    exact ⟨text, he.symm⟩

section

variable {providers : List Provider} {keys : List ProviderKey} {preserve : Bool}

theorem Sound.insertProviders (h : s.Sound) :
    (providers.foldl (·.insertProvider preserve) s).Sound := by
  induction providers generalizing s
  case nil => exact h
  case cons hi => exact hi h.insertProvider

theorem mem_insertProviders : id ∈ (providers.foldl (·.insertProvider preserve) s).providers ↔
    id ∈ s.providers ∨ ∃ p ∈ providers, p.id = id := by
  induction providers generalizing s
  case nil => simp
  case cons p ps hi =>
    rw [List.foldl_cons, hi, insertProvider, AList.mem_insert, List.exists_mem_cons_iff]
    tauto

-- Providers and keys with other ids stay as they are.
theorem lookup_insertProviders (h : ∀ p ∈ providers, p.id ≠ id) :
    (providers.foldl (·.insertProvider preserve) s).providers.lookup id = s.providers.lookup id := by
  induction providers generalizing s
  case nil => rfl
  case cons p ps hi =>
    rw [List.forall_mem_cons] at h
    rw [List.foldl_cons, hi h.2, insertProvider, AList.lookup_insert_ne (Ne.symm h.1)]

theorem lookup_insertKeys (h : ∀ key ∈ keys, key.id ≠ id) :
    (keys.foldl (·.insertKey ·) s).keys.lookup id = s.keys.lookup id := by
  induction keys generalizing s
  case nil => rfl
  case cons p ps hi =>
    rw [List.forall_mem_cons] at h
    rw [List.foldl_cons, hi h.2, insertKey, AList.lookup_insert_ne (Ne.symm h.1)]

@[simp]
theorem keys_insertProviders :
    (providers.foldl (·.insertProvider preserve) s).keys = s.keys := by
  induction providers generalizing s
  case nil => rfl
  case cons hi => exact hi

@[simp]
theorem providers_insertKeys : (keys.foldl (·.insertKey ·) s).providers = s.providers := by
  induction keys generalizing s
  case nil => rfl
  case cons hi => exact hi

theorem Sound.insertKeys (h : s.Sound) (hp : ∀ key ∈ keys, key.providerId ∈ s.providers) :
    (keys.foldl (·.insertKey ·) s).Sound := by
  induction keys generalizing s
  case nil => exact h
  case cons hi =>
    rw [List.forall_mem_cons] at hp
    exact hi (h.insertKey hp.1) hp.2

-- A batch of providers and keys that belong to these or to saved ones.
theorem Sound.upsert (h : s.Sound) (hp : ∀ key ∈ keys, ∃ p ∈ providers, p.id = key.providerId)
    (hu : s.upsertProviderBatch encrypt providers keys preserve = .ok s') : s'.Sound := by
  have ⟨sealed, hs, hu⟩ := bind_eq_ok'.mp hu
  cases hu
  refine h.insertProviders.insertKeys ?_
  intro key hk
  have ⟨k, hm, _, he⟩ := sealKeys_eq_ok hs key hk
  have ⟨p, hm, hid⟩ := hp k hm
  exact mem_insertProviders.mpr (.inr ⟨p, hm, he ▸ hid⟩)

end

section

variable {providerId keyId : String}

theorem deleteProviderKey_eq_ok (h : s.deleteProviderKey providerId keyId = .ok (some s')) :
    s' = { s with keys := s.keys.erase keyId } := by
  rw [deleteProviderKey] at h
  split at h
  case h_1 => cases h
  case h_2 =>
    simp only [bind_eq_ok', exists_unit, pure_eq_ok, Option.some.injEq] at h
    exact h.2.symm

-- A provider that's deleted has no keys.
theorem deleteProvider_eq_ok (h : s.deleteProvider providerId = .ok (some s')) :
    (∀ {id k}, s.keys.lookup id = some k → k.providerId ≠ providerId) ∧
      s' = { s with providers := s.providers.erase providerId } := by
  rw [deleteProvider] at h
  split at h
  case h_1 => cases h
  case h_2 =>
    simp only [bind_eq_ok', ensure_eq_ok, exists_unit, pure_eq_ok, Option.some.injEq] at h
    refine ⟨?_, h.2.2.symm⟩
    intro id k hk hp
    have hm : k ∈ s.keys.values.filter fun key => key.providerId = providerId :=
      List.mem_filter.mpr ⟨AList.mem_values.mpr ⟨id, hk⟩, decide_eq_true hp⟩
    rw [List.isEmpty_iff.mp h.2.1] at hm
    cases hm

theorem Sound.erase_key (h : s.Sound) : { s with keys := s.keys.erase keyId }.Sound where
  providers hp := h.providers hp
  keys hk := h.keys (AList.lookup_erase_iff.mp hk).2
  owned hk := h.owned (AList.lookup_erase_iff.mp hk).2

theorem Sound.erase_provider (h : s.Sound)
    (hk : ∀ {id k}, s.keys.lookup id = some k → k.providerId ≠ providerId) :
    { s with providers := s.providers.erase providerId }.Sound where
  providers hp := h.providers (AList.lookup_erase_iff.mp hp).2
  keys hk := h.keys hk
  owned h' := AList.mem_erase.mpr ⟨hk h', h.owned h'⟩

-- A provider that's changed keeps its id.
theorem Sound.insert_provider (h : s.Sound) (hid : provider.id = providerId) :
    { s with providers := s.providers.insert providerId provider }.Sound where
  providers hp := by
    obtain ⟨he, hv⟩ | ⟨-, hp⟩ := AList.lookup_insert_iff.mp hp
    case inl => rw [← hv, he, hid]
    case inr => exact h.providers hp
  keys hk := h.keys hk
  owned hk := (AList.mem_insert _).mpr (.inr (h.owned hk))

end

end Saved

end Providers
