import Superkiro.Gateway.ProviderEdits

-- The providers and keys the gateway routes with, and how edits are taken up there.
namespace Providers

open Gateway (HealthState)

structure KeyEntry where
  key                 : ProviderKey
  currentWeight       : Int := 0
  consecutiveFailures : Nat := 0
  lastError           : Option (String × Nat) := none

structure ProviderKeyPool where
  provider : Provider
  keys     : List KeyEntry

namespace ProviderKeyPool

def new (provider : Provider) (keys : List ProviderKey) : ProviderKeyPool :=
  ⟨provider, keys.map fun key => { key }⟩

-- A key that's still the same secret keeps its health.
def carry (entry : KeyEntry) (key : ProviderKey) : KeyEntry :=
  if entry.key.apiKey = key.apiKey then
    { entry with
      key := { key with
        healthState   := entry.key.healthState
        cooldownUntil := entry.key.cooldownUntil } }
  else { entry with key }

def addKey (entries : List KeyEntry) (key : ProviderKey) : List KeyEntry :=
  match entries with
  | [] => [{ key }]
  | entry :: entries =>
    if entry.key.id = key.id then carry entry key :: entries else entry :: addKey entries key

-- Keys that aren't saved any more are removed, and those that are saved are added or updated.
def sync (pool : ProviderKeyPool) (provider : Provider) (keys : List ProviderKey) :
    ProviderKeyPool :=
  ⟨provider, keys.foldl addKey (pool.keys.filter fun entry => keys.any (·.id = entry.key.id))⟩

end ProviderKeyPool

-- How an attempt with a key ends.
inductive Mark
  | failure (now cooldown : Nat)
  | unhealthy
  | success
  | error (class_ : String) (at_ : Nat)

-- What attempts know of a key.
structure Health where
  state               : HealthState
  cooldownUntil       : Option Nat
  consecutiveFailures : Nat

def Mark.health (h : Health) : Mark → Health
  | failure now cooldown =>
    let failures := min (h.consecutiveFailures + 1) 4294967295
    let doublings := min (failures - 4) 10
    let backoff := min (min (cooldown * 2 ^ doublings) Gateway.durationMax)
      (max Gateway.maxKeyBackoff cooldown)
    ⟨.degraded, some (now + backoff / Gateway.second), failures⟩
  | unhealthy => { h with state := .unhealthy }
  | success   => ⟨.healthy, none, 0⟩
  | error _ _ => h

namespace KeyEntry

def health (entry : KeyEntry) : Health :=
  ⟨entry.key.healthState, entry.key.cooldownUntil, entry.consecutiveFailures⟩

-- A key that's retired is switched off too.
def mark (m : Mark) (entry : KeyEntry) : KeyEntry :=
  let h := m.health entry.health
  { entry with
    key := { entry.key with
      healthState   := h.state
      cooldownUntil := h.cooldownUntil
      enabled       := match m with
        | .unhealthy => false
        | _          => entry.key.enabled }
    consecutiveFailures := h.consecutiveFailures
    lastError           := match m with
      | .error class_ at_ => some (class_, at_)
      | _                 => entry.lastError }

@[simp]
theorem mark_id {m : Mark} {entry : KeyEntry} : (entry.mark m).key.id = entry.key.id := rfl

@[simp]
theorem mark_health {m : Mark} {entry : KeyEntry} :
    (entry.mark m).health = m.health entry.health := rfl

end KeyEntry

-- Only the pools. Which of them is the default is chosen among them.
abbrev Registry := Table String ProviderKeyPool

namespace Registry

variable (reg : Registry)

def register (provider : Provider) (key : ProviderKey) : Registry :=
  match reg.lookup provider.id with
  | some pool => reg.insert provider.id ⟨provider, ProviderKeyPool.addKey pool.keys key⟩
  | none      => reg.insert provider.id (.new provider [key])

-- The pool of a provider after the providers and keys that were read.
def taken (keys : List ProviderKey) (old : Option ProviderKeyPool) (provider : Provider) :
    ProviderKeyPool :=
  let keys := keys.filter (·.providerId = provider.id)
  match old with
  | some pool => pool.sync provider keys
  | none      => .new provider keys

def syncProvider (keys : List ProviderKey) (reg : Registry) (provider : Provider) : Registry :=
  reg.insert provider.id (taken keys (reg.lookup provider.id) provider)

def sync (providers : List Provider) (keys : List ProviderKey) : Registry :=
  providers.foldl (syncProvider keys) (reg.retain fun id _ => providers.any (·.id = id))

def markKey (m : Mark) (keyId : String) : List KeyEntry → List KeyEntry
  | []               => []
  | entry :: entries =>
    if entry.key.id = keyId then entry.mark m :: entries else entry :: markKey m keyId entries

def mark (providerId keyId : String) (m : Mark) : Registry :=
  reg.update providerId fun pool => { pool with keys := markKey m keyId pool.keys }

-- What's known of a provider and of a key of it.
def providerOf (id : String) : Option Provider := (reg.lookup id).map (·.provider)

def entryIn (entries : List KeyEntry) (keyId : String) : Option KeyEntry :=
  entries.find? (·.key.id = keyId)

def entryOf (id keyId : String) : Option KeyEntry :=
  (reg.lookup id).bind fun pool => entryIn pool.keys keyId

-- A key as it's taken up where there was an entry or none.
def carried (entry : Option KeyEntry) (key : ProviderKey) : KeyEntry :=
  match entry with
  | some entry => ProviderKeyPool.carry entry key
  | none       => { key }

variable {reg} {entries : List KeyEntry} {keys : List ProviderKey} {key : ProviderKey}
  {keyId id : String} {provider : Provider} {providers : List Provider} {pool : ProviderKeyPool}

theorem carry_id {entry : KeyEntry} : (ProviderKeyPool.carry entry key).key.id = key.id := by
  unfold ProviderKeyPool.carry
  split <;> rfl

theorem carried_id {entry : Option KeyEntry} : (carried entry key).key.id = key.id := by
  cases entry
  case none => rfl
  case some => exact carry_id

theorem entryIn_cons {entry : KeyEntry} : entryIn (entry :: entries) keyId =
    if entry.key.id = keyId then some entry else entryIn entries keyId := by
  rw [entryIn, List.find?_cons]
  by_cases h : entry.key.id = keyId <;> simp [h, entryIn]

theorem entryIn_addKey : entryIn (ProviderKeyPool.addKey entries key) keyId =
    if key.id = keyId then some (carried (entryIn entries keyId) key)
    else entryIn entries keyId := by
  induction entries
  case nil =>
    rw [ProviderKeyPool.addKey, entryIn_cons]
    rfl
  case cons entry entries hi =>
    rw [ProviderKeyPool.addKey]
    split
    case isTrue h =>
      rw [entryIn_cons, entryIn_cons, carry_id, h]
      split
      case isTrue hk => rfl
      case isFalse => rfl
    case isFalse h =>
      rw [entryIn_cons, entryIn_cons, hi]
      by_cases hk : entry.key.id = keyId
      case pos =>
        have hne : ¬key.id = keyId := fun he => h (hk.trans he.symm)
        rw [if_pos hk, if_pos hk, if_neg hne]
      case neg => rw [if_neg hk, if_neg hk]

theorem entryIn_addKeys (hn : (keys.map (·.id)).Nodup) :
    entryIn (keys.foldl ProviderKeyPool.addKey entries) keyId =
      match keys.find? (·.id = keyId) with
      | some key => some (carried (entryIn entries keyId) key)
      | none     => entryIn entries keyId := by
  induction keys generalizing entries
  case nil => rfl
  case cons key keys hi =>
    rw [List.map_cons, List.nodup_cons] at hn
    rw [List.foldl_cons, hi hn.2, entryIn_addKey, List.find?_cons]
    by_cases hk : key.id = keyId
    case pos =>
      have hf : keys.find? (·.id = keyId) = none := by
        rw [List.find?_eq_none]
        intro k hm he
        exact hn.1 (List.mem_map.mpr ⟨k, hm, (of_decide_eq_true he).trans hk.symm⟩)
      simp [hk, hf]
    case neg => simp [hk]

theorem entryIn_filter :
    entryIn (entries.filter fun entry => keys.any (·.id = entry.key.id)) keyId =
      if keys.any (·.id = keyId) then entryIn entries keyId else none := by
  induction entries
  case nil => simp [entryIn]
  case cons entry entries hi =>
    rw [List.filter_cons, entryIn_cons]
    by_cases hk : entry.key.id = keyId
    case pos =>
      subst hk
      split
      case isTrue h => rw [entryIn_cons, if_pos rfl, if_pos rfl]
      case isFalse h => rw [hi, if_neg h]
    case neg =>
      rw [if_neg hk, ← hi]
      split
      case isTrue => rw [entryIn_cons, if_neg hk]
      case isFalse => rfl

-- The keys of a pool after the keys that were read.
theorem entryIn_sync (hn : (keys.map (·.id)).Nodup) :
    entryIn (pool.sync provider keys).keys keyId =
      (keys.find? (·.id = keyId)).map (carried (entryIn pool.keys keyId)) := by
  rw [ProviderKeyPool.sync, entryIn_addKeys hn, entryIn_filter]
  cases hf : keys.find? (·.id = keyId)
  case none =>
    have ha : ¬(keys.any (·.id = keyId)) = true := by
      rw [List.any_eq_true]
      rintro ⟨k, hm, he⟩
      exact List.find?_eq_none.mp hf k hm he
    exact if_neg ha
  case some k =>
    have ha : keys.any (·.id = keyId) = true :=
      List.any_eq_true.mpr ⟨k, List.mem_of_find?_eq_some hf, by simpa using List.find?_some hf⟩
    simp only [Option.map_some]
    rw [if_pos ha]

theorem entryIn_new : entryIn (ProviderKeyPool.new provider keys).keys keyId =
    (keys.find? (·.id = keyId)).map (carried none) := by
  rw [ProviderKeyPool.new, entryIn, List.find?_map]
  rfl

-- The pools after all providers that were read.
theorem lookup_syncProviders (hn : (providers.map (·.id)).Nodup) :
    (providers.foldl (syncProvider keys) reg).lookup id =
      match providers.find? (·.id = id) with
      | some provider => some (taken keys (reg.lookup id) provider)
      | none          => reg.lookup id := by
  induction providers generalizing reg
  case nil => rfl
  case cons p ps hi =>
    rw [List.map_cons, List.nodup_cons] at hn
    rw [List.foldl_cons, hi hn.2, List.find?_cons, syncProvider]
    by_cases hp : p.id = id
    case pos =>
      have hf : ps.find? (·.id = id) = none := by
        rw [List.find?_eq_none]
        intro q hm he
        exact hn.1 (List.mem_map.mpr ⟨q, hm, (of_decide_eq_true he).trans hp.symm⟩)
      subst hp
      simp [hf]
    case neg => simp [hp, AList.lookup_insert_ne (Ne.symm hp)]

theorem lookup_sync (hn : (providers.map (·.id)).Nodup) :
    (reg.sync providers keys).lookup id =
      (providers.find? (·.id = id)).map (taken keys (reg.lookup id)) := by
  rw [sync, lookup_syncProviders hn]
  cases hf : providers.find? (·.id = id)
  case none =>
    have ha : ¬providers.any (·.id = id) := by
      rw [List.any_eq_true]
      rintro ⟨q, hm, he⟩
      exact List.find?_eq_none.mp hf q hm he
    cases hl : (reg.retain fun id _ => providers.any (·.id = id)).lookup id
    case none => rfl
    case some pool => exact absurd ((AList.lookup_retain _).mp hl).2 ha
  case some p =>
    have ha : providers.any (·.id = id) := by
      rw [List.any_eq_true]
      exact ⟨p, List.mem_of_find?_eq_some hf, by simpa using List.find?_some hf⟩
    have hl : (reg.retain fun id _ => providers.any (·.id = id)).lookup id = reg.lookup id := by
      ext pool
      rw [AList.lookup_retain, and_iff_left ha]
    simp only [hl, Option.map_some]

-- The key that was read for a provider.
def keyOf (keys : List ProviderKey) (id keyId : String) : Option ProviderKey :=
  keys.find? fun key => key.id = keyId && key.providerId = id

theorem find?_filter_providerId : (keys.filter (·.providerId = id)).find? (·.id = keyId) =
    keyOf keys id keyId := by
  rw [List.find?_filter, keyOf]
  congr
  ext key
  rw [Bool.and_comm]
  simp

-- What a sync makes of a provider and of its keys.
@[simp]
theorem providerOf_sync (hn : (providers.map (·.id)).Nodup) :
    (reg.sync providers keys).providerOf id = providers.find? (·.id = id) := by
  rw [providerOf, lookup_sync hn, Option.map_map]
  cases providers.find? (·.id = id)
  case none => rfl
  case some p =>
    simp only [Option.map_some, Function.comp_apply, taken]
    split <;> rfl

theorem entryOf_sync (hp : (providers.map (·.id)).Nodup) (hk : (keys.map (·.id)).Nodup) :
    (reg.sync providers keys).entryOf id keyId =
      (providers.find? (·.id = id)).bind fun _ =>
        (keyOf keys id keyId).map (carried (reg.entryOf id keyId)) := by
  rw [entryOf, lookup_sync hp]
  cases hf : providers.find? (·.id = id)
  case none => rfl
  case some p =>
    have hid : p.id = id := by simpa using List.find?_some hf
    have hk : ((keys.filter (·.providerId = id)).map (·.id)).Nodup :=
      hk.sublist (List.filter_sublist.map _)
    rw [Option.map_some, Option.bind_some, Option.bind_some, entryOf]
    cases reg.lookup id
    case none =>
      simp only [taken, hid]
      rw [entryIn_new, find?_filter_providerId]
      rfl
    case some pool =>
      simp only [taken, hid]
      rw [entryIn_sync hk, find?_filter_providerId]
      rfl

-- What a registration makes of them.
theorem providerOf_register : (reg.register provider key).providerOf id =
    if id = provider.id then some provider else reg.providerOf id := by
  rw [providerOf, register]
  by_cases h : id = provider.id
  case pos =>
    rw [if_pos h, h]
    split <;> simp [ProviderKeyPool.new]
  case neg =>
    rw [if_neg h, providerOf]
    split <;> rw [AList.lookup_insert_ne h]

theorem entryOf_register : (reg.register provider key).entryOf id keyId =
    if id = provider.id ∧ keyId = key.id then some (carried (reg.entryOf id keyId) key)
    else reg.entryOf id keyId := by
  rw [entryOf, register]
  by_cases h : id = provider.id
  case pos =>
    subst h
    cases hl : reg.lookup provider.id
    case none =>
      simp only [AList.lookup_insert, Option.bind_some, true_and]
      rw [entryIn_new, entryOf, hl, List.find?_singleton]
      by_cases hk : keyId = key.id
      case pos => simp [hk]
      case neg => simp [hk, Ne.symm hk]
    case some pool =>
      simp only [AList.lookup_insert, Option.bind_some, true_and]
      rw [entryIn_addKey, entryOf, hl, Option.bind_some]
      by_cases hk : keyId = key.id
      case pos => simp [hk]
      case neg => simp [hk, Ne.symm hk]
  case neg =>
    rw [if_neg (fun h' => h h'.1), entryOf]
    split <;> rw [AList.lookup_insert_ne h]

variable {m : Mark} {id' keyId' : String}

theorem entryIn_markKey : entryIn (markKey m keyId entries) keyId' =
    if keyId' = keyId then (entryIn entries keyId').map (·.mark m) else entryIn entries keyId' := by
  induction entries
  case nil => simp [markKey, entryIn]
  case cons entry entries hi =>
    rw [markKey]
    by_cases h : entry.key.id = keyId
    case pos =>
      subst h
      rw [if_pos rfl, entryIn_cons, entryIn_cons, KeyEntry.mark_id]
      by_cases hk : keyId' = entry.key.id
      case pos => simp [hk]
      case neg => simp [hk, Ne.symm hk]
    case neg =>
      rw [if_neg h, entryIn_cons, entryIn_cons, hi]
      by_cases hk : entry.key.id = keyId'
      case pos =>
        have hne : ¬keyId' = keyId := fun he => h (hk.trans he)
        rw [if_pos hk, if_pos hk, if_neg hne]
      case neg => rw [if_neg hk, if_neg hk]

@[simp]
theorem providerOf_mark : (reg.mark id' keyId' m).providerOf id = reg.providerOf id := by
  rw [providerOf, mark, AList.lookup_update, providerOf]
  split
  case isTrue h =>
    rw [h]
    cases reg.lookup id' <;> rfl
  case isFalse => rfl

theorem entryOf_mark : (reg.mark id' keyId' m).entryOf id keyId =
    if id = id' ∧ keyId = keyId' then (reg.entryOf id keyId).map (·.mark m)
    else reg.entryOf id keyId := by
  rw [entryOf, mark, AList.lookup_update, entryOf]
  by_cases h : id = id'
  case neg => simp [h]
  case pos =>
    subst h
    cases reg.lookup id
    case none => simp
    case some pool => simp [entryIn_markKey]

-- A pool holds a key once.
def Distinct (entries : List KeyEntry) : Prop := (entries.map (·.key.id)).Nodup

theorem entryIn_of_mem {entry : KeyEntry} (h : Distinct entries) (hm : entry ∈ entries) :
    entryIn entries entry.key.id = some entry := by
  induction entries
  case nil => cases hm
  case cons first entries hi =>
    rw [Distinct, List.map_cons, List.nodup_cons] at h
    rw [entryIn_cons]
    obtain rfl | hm := List.mem_cons.mp hm
    case inl => exact if_pos rfl
    case inr =>
      rw [if_neg fun he => h.1 (List.mem_map.mpr ⟨entry, hm, he.symm⟩)]
      exact hi h.2 hm

theorem Distinct.addKey (h : Distinct entries) : Distinct (ProviderKeyPool.addKey entries key) := by
  have hm : ∀ {entries id}, id ∈ (ProviderKeyPool.addKey entries key).map (·.key.id) →
      id = key.id ∨ id ∈ entries.map (·.key.id) := by
    intro entries id hi
    induction entries
    case nil => simpa [ProviderKeyPool.addKey] using hi
    case cons entry entries hi' =>
      rw [ProviderKeyPool.addKey] at hi
      split at hi
      case isTrue he =>
        rw [List.map_cons, carry_id, ← he] at hi
        exact .inr hi
      case isFalse =>
        rw [List.map_cons, List.mem_cons] at hi
        rw [List.map_cons, List.mem_cons]
        have := hi.imp_right hi'
        tauto
  induction entries
  case nil => simp [ProviderKeyPool.addKey, Distinct]
  case cons entry entries hi =>
    rw [Distinct, List.map_cons, List.nodup_cons] at h
    rw [ProviderKeyPool.addKey]
    split
    case isTrue he =>
      rw [Distinct, List.map_cons, carry_id, ← he, List.nodup_cons]
      exact h
    case isFalse he =>
      rw [Distinct, List.map_cons, List.nodup_cons]
      exact ⟨fun hm' => (hm hm').elim he h.1, hi h.2⟩

theorem Distinct.markKey (h : Distinct entries) : Distinct (markKey m keyId entries) := by
  have hm : (Registry.markKey m keyId entries).map (·.key.id) = entries.map (·.key.id) := by
    induction entries
    case nil => rfl
    case cons entry entries hi =>
      rw [Distinct, List.map_cons, List.nodup_cons] at h
      rw [Registry.markKey]
      split
      case isTrue => rfl
      case isFalse => rw [List.map_cons, hi h.2, List.map_cons]
  rw [Distinct, hm]
  exact h

def WellFormed (reg : Registry) : Prop :=
  ∀ {id pool}, reg.lookup id = some pool → Distinct pool.keys

theorem Distinct.new (hk : (keys.map (·.id)).Nodup) :
    Distinct (ProviderKeyPool.new provider keys).keys := by
  rw [Distinct, ProviderKeyPool.new, List.map_map]
  exact hk

theorem WellFormed.register (h : reg.WellFormed) : (reg.register provider key).WellFormed := by
  intro id pool hl
  rw [Registry.register] at hl
  split at hl
  case h_1 old ho =>
    obtain ⟨-, rfl⟩ | ⟨-, hl⟩ := AList.lookup_insert_iff.mp hl
    case inl => exact (h ho).addKey
    case inr => exact h hl
  case h_2 =>
    obtain ⟨-, rfl⟩ | ⟨-, hl⟩ := AList.lookup_insert_iff.mp hl
    case inl => exact .new (List.nodup_singleton _)
    case inr => exact h hl

theorem WellFormed.mark (h : reg.WellFormed) : (reg.mark id' keyId' m).WellFormed := by
  intro id pool hl
  rw [Registry.mark, AList.lookup_update] at hl
  split at hl
  case isTrue =>
    have ⟨old, ho, he⟩ := Option.map_eq_some_iff.mp hl
    exact he ▸ (h ho).markKey
  case isFalse => exact h hl

theorem WellFormed.sync (h : reg.WellFormed) (hp : (providers.map (·.id)).Nodup)
    (hk : (keys.map (·.id)).Nodup) : (reg.sync providers keys).WellFormed := by
  intro id pool hl
  rw [lookup_sync hp] at hl
  have ⟨p, _, ht⟩ := Option.map_eq_some_iff.mp hl
  have hk : ((keys.filter (·.providerId = p.id)).map (·.id)).Nodup :=
    hk.sublist (List.filter_sublist.map _)
  rw [← ht]
  cases ho : reg.lookup id
  case none => exact .new hk
  case some old =>
    have hadd : ∀ {ks : List ProviderKey} {es}, Distinct es →
        Distinct (ks.foldl ProviderKeyPool.addKey es) := by
      intro ks
      induction ks
      case nil => exact fun hd => hd
      case cons hi => exact fun hd => hi hd.addKey
    exact hadd ((h ho).sublist (List.filter_sublist.map _))

end Registry

end Providers
