import Superkiro.Gateway.RuntimeRegistry
import Superkiro.Lib.Run

-- Edits of providers and keys that are saved first, and then taken up by what the gateway routes
-- with, while attempts go on.
namespace Providers

open Gateway (HealthState)

-- What of a key it's selected and called by. Its health is up to the attempts.
def ProviderKey.routed (key : ProviderKey) : ProviderKey :=
  { key with apiKeyEncrypted := none, healthState := .healthy, cooldownUntil := none }

def Mark.retires : Mark → Bool
  | unhealthy => true
  | _         => false

namespace Saved

variable {F : Type} (decrypt : String → Option String) (s : Saved F)

-- The key of a provider that's saved.
def keyFor (id keyId : String) : Option ProviderKey :=
  ((s.keys.lookup keyId).filter (·.providerId = id)).map (withSecret decrypt)

end Saved

-- The key of a provider that was read. Providers and keys are read one after the other.
def readFor (providers : List Provider) (keys : List ProviderKey) (id keyId : String) :
    Option ProviderKey :=
  (providers.find? (·.id = id)).bind fun _ => Registry.keyOf keys id keyId

-- How far an edit is. An import is over when there's nothing left to register, and any other edit
-- when it has updated the registry from what it has read.
inductive Stage
  | waiting
  | committed
  | readProviders (providers : List Provider)
  | readKeys (providers : List Provider) (keys : List ProviderKey)
  | registering (items : List (Provider × ProviderKey))

namespace Stage

def finished : Stage := registering []

-- The edit is going to update all of the registry.
def Syncs : Stage → Prop
  | committed | readProviders _ | readKeys _ _ => True
  | waiting | registering _                    => False

-- What the edit is going to register.
def items : Stage → List (Provider × ProviderKey)
  | registering items => items
  | _                 => []

-- What was read holds every provider and every key once.
def Distinct : Stage → Prop
  | readProviders ps => (ps.map (·.id)).Nodup
  | readKeys ps ks   => (ps.map (·.id)).Nodup ∧ (ks.map (·.id)).Nodup
  | _                => True

-- What was read holds a key with its secret.
def Saw (id keyId secret : String) : Stage → Prop
  | readProviders ps => ∃ p, ps.find? (·.id = id) = some p
  | readKeys ps ks   => ∃ k, readFor ps ks id keyId = some k ∧ k.apiKey = secret
  | _                => True

end Stage

variable {F ι : Type}

structure Routing (F ι : Type) where
  saved    : Saved F
  registry : Registry
  stage    : ι → Stage
  -- The keys that were retired, with their providers.
  retired  : List (String × String) := []

inductive Event (ι : Type)
  | edit (i : ι)
  | mark (id keyId : String) (m : Mark)

def Event.markOf (id keyId : String) : Event ι → Option Mark
  | edit _     => none
  | mark i k m => if i = id ∧ k = keyId then some m else none

-- Imports register what they've committed. The others read what's saved.
def Request.taken (s : Saved F) : Request → Stage
  | .importAll items _ =>
    .registering ((s.committed true (items.map (·.toProvider))).zip (items.map (·.toKey)))
  | _ => .committed

-- An entry is as its key is saved, but that a retired key may be off.
def Stands (retired : Prop) (entry : KeyEntry) (key : ProviderKey) : Prop :=
  entry.key.routed = key.routed ∨
  retired ∧ entry.key.routed = { key.routed with enabled := false }

namespace Routing

def init (s : Saved F) (reg : Registry) : Routing F ι := ⟨s, reg, fun _ => .waiting, []⟩

def Pending (w : Routing F ι) (item : Provider × ProviderKey) : Prop :=
  ∃ i, item ∈ (w.stage i).items

-- Another edit is going to update the registry.
def Updated (w : Routing F ι) (i : ι) : Prop := ∃ j ≠ i, (w.stage j).Syncs

def Quiet (w : Routing F ι) : Prop := ∀ i, w.stage i = .waiting ∨ w.stage i = .finished

variable (decrypt : String → Option String)

-- What was read is what's saved, but for what's going to be registered.
structure Current (w : Routing F ι) (ps : List Provider) (ks : List ProviderKey) : Prop where
  providers : ∀ {id}, (∀ item, w.Pending item → item.1.id ≠ id) →
    ps.find? (·.id = id) = w.saved.providers.lookup id
  keys      : ∀ {id keyId}, (∀ item, w.Pending item → item.2.id ≠ keyId) →
    readFor ps ks id keyId = w.saved.keyFor decrypt id keyId

-- What's registered is what's saved, but for what's going to be registered after it. Besides, no
-- other provider has the key.
structure Unchanged (w : Routing F ι) (item : Provider × ProviderKey) : Prop where
  provider : (∃ other, w.Pending other ∧ other.1.id = item.1.id) ∨
    w.saved.providers.lookup item.1.id = some item.1
  key      : (∃ other, w.Pending other ∧ other.2.id = item.2.id) ∨
    (∃ k, w.saved.keyFor decrypt item.1.id item.2.id = some k ∧ k.routed = item.2.routed) ∧
    ∀ id ≠ item.1.id, w.registry.entryOf id item.2.id = none

-- The registry holds what's saved, but for some providers and keys.
structure Matches (w : Routing F ι) (but : Provider × ProviderKey → Prop) : Prop where
  providers : ∀ id, (∀ item, but item → item.1.id ≠ id) →
    w.registry.providerOf id = w.saved.providers.lookup id
  keys      : ∀ id keyId, (∀ item, but item → item.2.id ≠ keyId) →
    Option.Rel (Stands ((id, keyId) ∈ w.retired)) (w.registry.entryOf id keyId)
      (w.saved.keyFor decrypt id keyId)

-- A key is saved with a secret, and isn't going to be registered with another one.
structure Holds (id keyId secret : String) (w : Routing F ι) : Prop where
  saved   : ∃ k, w.saved.keyFor decrypt id keyId = some k ∧ k.apiKey = secret
  pending : ∀ {item}, w.Pending item → item.2.id = keyId → item.1.id = id → item.2.apiKey = secret

variable [DecidableEq ι]

def at_ (w : Routing F ι) (i : ι) (stage : Stage) : Routing F ι :=
  { w with stage := Function.update w.stage i stage }

-- What an edit does to the registry is up to date, or another edit is going to update it.
def Timely (w : Routing F ι) : Event ι → Prop
  | .mark _ _ _ => True
  | .edit i     => w.Updated i ∨
    match w.stage i with
    | .readKeys ps ks              => w.Current decrypt ps ks
    | .registering (item :: items) => (w.at_ i (.registering items)).Unchanged decrypt item
    | _                            => True

variable (checkBaseUrl : String → Option String) (requests : ι → Request)

-- An edit's change of what's saved is one step here.
inductive Step : Routing F ι → Event ι → Routing F ι → Prop
  | commits {w} : w.stage i = .waiting →
    (requests i).change decrypt checkBaseUrl w.saved = .ok s →
    Step w (.edit i) { w.at_ i ((requests i).taken w.saved) with saved := s }
  -- It's refused, or it can't be saved.
  | fails {w} : w.stage i = .waiting → Step w (.edit i) (w.at_ i .finished)
  | readsProviders {w} : w.stage i = .committed →
    Step w (.edit i) (w.at_ i (.readProviders w.saved.listProviders))
  | readsKeys {w} : w.stage i = .readProviders ps →
    Step w (.edit i) (w.at_ i (.readKeys ps (w.saved.runtimeKeys decrypt)))
  | syncs {w} : w.stage i = .readKeys ps ks →
    Step w (.edit i) { w.at_ i .finished with registry := w.registry.sync ps ks }
  | registers {w} : w.stage i = .registering (item :: items) →
    Step w (.edit i)
      { w.at_ i (.registering items) with registry := w.registry.register item.1 item.2 }
  | marks {w} (id keyId : String) (m : Mark) : Step w (.mark id keyId m) { w with
    registry := w.registry.mark id keyId m
    retired  := if m.retires then (id, keyId) :: w.retired else w.retired }

section

variable {decrypt checkBaseUrl : String → Option String} {requests : ι → Request}
  {w w' : Routing F ι} {i j : ι} {t : Stage} {item : Provider × ProviderKey}
  {id keyId secret : String} {ps : List Provider} {ks : List ProviderKey} {s : Saved F}
  {key : ProviderKey} {entry : KeyEntry} {m : Mark} {event : Event ι}

@[simp]
theorem stage_at_self : (w.at_ i t).stage i = t := Function.update_self ..

@[simp]
theorem stage_at_of_ne (h : j ≠ i) : (w.at_ i t).stage j = w.stage j := Function.update_of_ne h ..

theorem stage_at (P : Stage → Prop) (h : ∀ j, P (w.stage j)) (ht : P t) :
    ∀ j, P ((w.at_ i t).stage j) := by
  intro j
  by_cases hj : j = i
  case pos =>
    rw [hj, stage_at_self]
    exact ht
  case neg =>
    rw [stage_at_of_ne hj]
    exact h j

theorem pending_at : (w.at_ i t).Pending item ↔
    item ∈ t.items ∨ ∃ j ≠ i, item ∈ (w.stage j).items := by
  constructor
  case mp =>
    rintro ⟨j, hj⟩
    by_cases h : j = i
    case pos =>
      rw [h, stage_at_self] at hj
      exact .inl hj
    case neg =>
      rw [stage_at_of_ne h] at hj
      exact .inr ⟨j, h, hj⟩
  case mpr =>
    rintro (h | ⟨j, hj, h⟩)
    case inl => exact ⟨i, by rwa [stage_at_self]⟩
    case inr => exact ⟨j, by rwa [stage_at_of_ne hj]⟩

-- What's pending stays so, but for what the edit at hand registers.
theorem Pending.at_ (h : w.Pending item) : item ∈ (w.stage i).items ∨ (w.at_ i t).Pending item := by
  have ⟨j, hj⟩ := h
  by_cases hi : j = i
  case pos => exact .inl (hi ▸ hj)
  case neg => exact .inr (pending_at.mpr (.inr ⟨j, hi, hj⟩))

theorem pending_of_at (h : (w.at_ i t).Pending item) : item ∈ t.items ∨ w.Pending item := by
  obtain h | ⟨j, _, h⟩ := pending_at.mp h
  case inl => exact .inl h
  case inr => exact .inr ⟨j, h⟩

theorem Updated.at_ (h : w.Updated i) : ∃ j, ((w.at_ i t).stage j).Syncs := by
  have ⟨j, hj, hs⟩ := h
  exact ⟨j, by rwa [stage_at_of_ne hj]⟩

omit [DecidableEq ι] in
theorem updated_of_syncs (hi : ¬(w.stage i).Syncs) (h : (w.stage j).Syncs) : w.Updated i :=
  ⟨j, fun he => hi (he ▸ h), h⟩

end

end Routing

section

variable {F : Type} {decrypt : String → Option String} {s : Saved F} {key : ProviderKey}
  {keys : List ProviderKey} {entry : KeyEntry} {id keyId : String} {m : Mark}

-- A list that holds a key once.
theorem find?_and (hn : (keys.map (·.id)).Nodup) : keys.find? (fun k => k.id = id && p k) =
    (keys.find? (·.id = id)).filter p := by
  induction keys
  case nil => rfl
  case cons k keys hi =>
    rw [List.map_cons, List.nodup_cons] at hn
    rw [List.find?_cons, List.find?_cons, hi hn.2]
    by_cases hk : k.id = id
    case neg => simp [hk]
    case pos =>
      have hf : keys.find? (·.id = id) = none := by
        rw [List.find?_eq_none]
        intro k' hm he
        exact hn.1 (List.mem_map.mpr ⟨k', hm, (of_decide_eq_true he).trans hk.symm⟩)
      cases hp : p k <;> simp [hk, hp, hf, Option.filter_some]

theorem keyOf_runtimeKeys (h : s.Keyed) :
    Registry.keyOf (s.runtimeKeys decrypt) id keyId = s.keyFor decrypt id keyId := by
  rw [Registry.keyOf, find?_and (Saved.nodup_runtimeKeys h)]
  have hk : s.keyNamed decrypt keyId = (s.keys.lookup keyId).map (Saved.withSecret decrypt) :=
    Saved.keyNamed_eq h
  rw [Saved.keyNamed] at hk
  rw [hk, Saved.keyFor]
  cases s.keys.lookup keyId
  case none => rfl
  case some k =>
    rw [Option.map_some, Option.filter_some, Option.filter_some, Saved.withSecret_providerId]
    split <;> rfl

theorem entryOf_sync_eq {reg : Registry} {ps : List Provider} {ks : List ProviderKey}
    (hp : (ps.map (·.id)).Nodup) (hk : (ks.map (·.id)).Nodup) :
    (reg.sync ps ks).entryOf id keyId =
      (readFor ps ks id keyId).map (Registry.carried (reg.entryOf id keyId)) := by
  rw [Registry.entryOf_sync hp hk, readFor]
  cases ps.find? (·.id = id) <;> rfl

theorem carried_routed {entry : Option KeyEntry} :
    (Registry.carried entry key).key.routed = key.routed := by
  cases entry
  case none => rfl
  case some entry =>
    rw [Registry.carried, ProviderKeyPool.carry]
    split <;> rfl

-- A key that's still the same secret keeps its health.
theorem carry_of_eq (h : entry.key.apiKey = key.apiKey) :
    (ProviderKeyPool.carry entry key).health = entry.health ∧
    (ProviderKeyPool.carry entry key).key.apiKey = key.apiKey := by
  rw [ProviderKeyPool.carry, if_pos h]
  exact ⟨rfl, rfl⟩

theorem mark_routed : (entry.mark m).key.routed =
    if m.retires then { entry.key.routed with enabled := false } else entry.key.routed := by
  cases m <;> rfl

theorem mark_apiKey : (entry.mark m).key.apiKey = entry.key.apiKey := rfl

theorem Stands.mono {p q : Prop} (hpq : p → q) (h : Stands p entry key) : Stands q entry key :=
  h.imp_right fun ⟨hp, he⟩ => ⟨hpq hp, he⟩

theorem Stands.mark {p q : Prop} (hpq : p → q) (hm : m.retires → q) (h : Stands p entry key) :
    Stands q (entry.mark m) key := by
  rw [Stands, mark_routed]
  cases hr : m.retires
  case false => exact h.mono hpq
  case true =>
    refine .inr ⟨hm hr, ?_⟩
    obtain h | ⟨-, h⟩ := h
    all_goals
      simp only [if_true]
      rw [h]

end

namespace Routing

section

variable {F ι : Type} [DecidableEq ι] {decrypt checkBaseUrl : String → Option String}
  {requests : ι → Request} {w w' : Routing F ι} {i j : ι} {item : Provider × ProviderKey}
  {id keyId secret : String} {ps : List Provider} {ks : List ProviderKey} {s : Saved F}
  {entry : KeyEntry} {event : Event ι} {but but' : Provider × ProviderKey → Prop}

omit [DecidableEq ι] in
theorem Matches.mono (h : w.Matches decrypt but) (hb : ∀ {item}, but item → but' item) :
    w.Matches decrypt but' where
  providers id hp  := h.providers id fun item hi => hp item (hb hi)
  keys id keyId hk := h.keys id keyId fun item hi => hk item (hb hi)

-- A registry that's updated from what's saved holds it.
theorem Matches.sync (hp : (ps.map (·.id)).Nodup) (hk : (ks.map (·.id)).Nodup)
    (h : w.Current decrypt ps ks) :
    ({ w.at_ i .finished with registry := w.registry.sync ps ks } : Routing F ι).Matches decrypt
      w.Pending where
  providers id hb := (Registry.providerOf_sync hp).trans (h.providers hb)
  keys id keyId hb := by
    simp only [entryOf_sync_eq hp hk]
    rw [h.keys hb]
    simp only [at_]
    cases w.saved.keyFor decrypt id keyId
    case none => exact .none
    case some k => exact .some (.inl carried_routed)

theorem Matches.register {items : List (Provider × ProviderKey)} (hm : w.Matches decrypt w.Pending)
    (hs : w.stage i = .registering (item :: items))
    (h : (w.at_ i (.registering items)).Unchanged decrypt item) :
    ({ w.at_ i (.registering items) with
      registry := w.registry.register item.1 item.2 } : Routing F ι).Matches decrypt
        (w.at_ i (.registering items)).Pending where
  providers id hb := by
    simp only [Registry.providerOf_register]
    split
    case isTrue hid =>
      subst hid
      obtain ⟨other, ho, he⟩ | h := h.provider
      case inl => exact absurd he (hb other ho)
      case inr => exact h.symm
    case isFalse hid =>
      refine hm.providers id fun other ho => ?_
      obtain ho | ho := ho.at_
      case inr => exact hb other ho
      case inl =>
        rw [hs, Stage.items, List.mem_cons] at ho
        obtain rfl | ho := ho
        case inl => exact Ne.symm hid
        case inr => exact hb other (pending_at.mpr (.inl ho))
  keys id keyId hb := by
    simp only [Registry.entryOf_register]
    by_cases hk : keyId = item.2.id
    case pos =>
      subst hk
      obtain ⟨other, ho, he⟩ | ⟨⟨k, hk, hr⟩, hn⟩ := h.key
      case inl => exact absurd he (hb other ho)
      case inr =>
        by_cases hid : id = item.1.id
        case pos =>
          subst hid
          rw [if_pos ⟨rfl, rfl⟩]
          have hk : w.saved.keyFor decrypt item.1.id item.2.id = some k := hk
          simp only [at_, hk]
          exact .some (.inl (carried_routed.trans hr.symm))
        case neg =>
          have hn : w.registry.entryOf id item.2.id = none := hn id hid
          have hf : w.saved.keyFor decrypt id item.2.id = none := by
            have hk : w.saved.keyFor decrypt item.1.id item.2.id = some k := hk
            rw [Saved.keyFor] at hk ⊢
            cases hl : w.saved.keys.lookup item.2.id
            case none => rfl
            case some k' =>
              rw [hl, Option.filter_some] at hk
              rw [Option.filter_some]
              split at hk
              case isFalse => cases hk
              case isTrue hp =>
                have hp := of_decide_eq_true hp
                rw [if_neg fun he => hid ((of_decide_eq_true he).symm.trans hp)]
                rfl
          rw [if_neg fun h => hid h.1, hn]
          simp only [at_, hf]
          exact .none
    case neg =>
      rw [if_neg fun h => hk h.2]
      refine hm.keys id keyId fun other ho => ?_
      obtain ho | ho := ho.at_
      case inr => exact hb other ho
      case inl =>
        rw [hs, Stage.items, List.mem_cons] at ho
        obtain rfl | ho := ho
        case inl => exact Ne.symm hk
        case inr => exact hb other (pending_at.mpr (.inl ho))

omit [DecidableEq ι] in
theorem Matches.mark {m : Mark} (id' keyId' : String) (h : w.Matches decrypt but) :
    ({ w with
      registry := w.registry.mark id' keyId' m
      retired  := if m.retires then (id', keyId') :: w.retired else w.retired } :
        Routing F ι).Matches decrypt but where
  providers id hb := Registry.providerOf_mark.trans (h.providers id hb)
  keys id keyId hb := by
    have hk := h.keys id keyId hb
    have hr : (id, keyId) ∈ w.retired →
        (id, keyId) ∈ if m.retires then (id', keyId') :: w.retired else w.retired := by
      intro hr
      split
      case isTrue => exact List.mem_cons_of_mem _ hr
      case isFalse => exact hr
    simp only [Registry.entryOf_mark]
    by_cases he : id = id' ∧ keyId = keyId'
    case pos =>
      rw [if_pos he]
      have hm : m.retires →
          (id, keyId) ∈ if m.retires then (id', keyId') :: w.retired else w.retired := by
        intro hm
        rw [if_pos hm, he.1, he.2]
        exact List.mem_cons_self
      generalize w.registry.entryOf id keyId = old at hk
      generalize w.saved.keyFor decrypt id keyId = new at hk
      cases hk
      case none => exact .none
      case some hs => exact .some (hs.mark hr hm)
    case neg =>
      rw [if_neg he]
      generalize w.registry.entryOf id keyId = old at hk
      generalize w.saved.keyFor decrypt id keyId = new at hk
      cases hk
      case none => exact .none
      case some hs => exact .some (hs.mono hr)

-- Imports hold every provider and key they've committed.
omit [DecidableEq ι] in
theorem exists_taken {items : List ImportedProvider} {imported : ImportedProvider} (s : Saved F)
    (encrypt : Seal) (hm : imported ∈ items) :
    ∃ item ∈ (Request.taken s (.importAll items encrypt)).items,
      item.1.id = imported.id ∧ item.2.id = imported.toKey.id := by
  rw [Request.taken, Stage.items]
  induction items generalizing s
  case nil => cases hm
  case cons first items hi =>
    rw [List.map_cons, List.map_cons, Saved.committed, List.zip_cons_cons]
    obtain rfl | hm := List.mem_cons.mp hm
    case inl => exact ⟨_, List.mem_cons_self, Saved.keepGroup_id, rfl⟩
    case inr =>
      have ⟨item, hi, he⟩ := hi (s.insertProvider true first.toProvider) hm
      exact ⟨item, List.mem_cons_of_mem _ hi, he⟩

theorem Matches.import {items : List ImportedProvider} {encrypt : Seal} (hk : w.saved.Keyed)
    (hm : w.Matches decrypt w.Pending) (hs : (w.stage i).items = [])
    (hc : (Request.importAll items encrypt).change decrypt checkBaseUrl w.saved = .ok s) :
    ({ w.at_ i ((Request.importAll items encrypt).taken w.saved) with saved := s } :
      Routing F ι).Matches decrypt
        (w.at_ i ((Request.importAll items encrypt).taken w.saved)).Pending where
  providers id hb := by
    have ⟨hp, _⟩ := Request.named_of_change hk hc
    refine (hm.providers id fun item hi => ?_).trans (hp id fun imported hi => ?_).symm
    case refine_1 =>
      obtain hi | hi := hi.at_
      case inl =>
        rw [hs] at hi
        cases hi
      case inr => exact hb item hi
    case refine_2 =>
      have ⟨item, ht, he, _⟩ := exists_taken w.saved encrypt hi
      exact he ▸ hb item (pending_at.mpr (.inl ht))
  keys id keyId hb := by
    have ⟨_, hn⟩ := Request.named_of_change hk hc
    have hl : s.keys.lookup keyId = w.saved.keys.lookup keyId := by
      refine hn keyId fun imported hi => ?_
      have ⟨item, ht, _, he⟩ := exists_taken w.saved encrypt hi
      exact he ▸ hb item (pending_at.mpr (.inl ht))
    have hf : s.keyFor decrypt id keyId = w.saved.keyFor decrypt id keyId := by
      rw [Saved.keyFor, hl]
      rfl
    simp only [hf]
    refine hm.keys id keyId fun item hi => ?_
    obtain hi | hi := hi.at_
    case inl =>
      rw [hs] at hi
      cases hi
    case inr => exact hb item hi

omit [DecidableEq ι] in
theorem readFor_saved (h : s.Sound) :
    readFor s.listProviders (s.runtimeKeys decrypt) id keyId = s.keyFor decrypt id keyId := by
  rw [readFor, Saved.find?_listProviders h.toKeyed, keyOf_runtimeKeys h.toKeyed]
  cases hp : s.providers.lookup id
  case some => rfl
  case none =>
    rw [Option.bind_none, Saved.keyFor]
    cases hl : s.keys.lookup keyId
    case none => rfl
    case some k =>
      rw [Option.filter_some, if_neg]
      · rfl
      · intro ho
        have ⟨p, hp'⟩ := AList.mem_iff_lookup.mp (of_decide_eq_true ho ▸ h.owned hl)
        cases hp.symm.trans hp'

-- What's read is up to date while nothing is saved.
omit [DecidableEq ι] in
theorem Current.read (h : w.saved.Sound) :
    w.Current decrypt w.saved.listProviders (w.saved.runtimeKeys decrypt) where
  providers _ := Saved.find?_listProviders h.toKeyed
  keys _      := readFor_saved h

-- The registry the gateway starts with.
def startup (decrypt : String → Option String) (s : Saved F) : Registry :=
  Registry.sync ∅ s.listProviders (s.runtimeKeys decrypt)

omit [DecidableEq ι] in
theorem startup_wellFormed (h : s.Keyed) : (startup decrypt s).WellFormed := by
  have he : (∅ : Registry).WellFormed := by
    intro _ _ hl
    cases hl
  intro id pool hl
  exact he.sync (Saved.nodup_listProviders h) (Saved.nodup_runtimeKeys h) hl

omit [DecidableEq ι] in
theorem startup_matches (h : s.Sound) :
    (init s (startup decrypt s) : Routing F ι).Matches decrypt but where
  providers _ _ := (Registry.providerOf_sync (Saved.nodup_listProviders h.toKeyed)).trans
    (Saved.find?_listProviders h.toKeyed)
  keys id keyId _ := by
    simp only [init, startup]
    rw [entryOf_sync_eq (Saved.nodup_listProviders h.toKeyed) (Saved.nodup_runtimeKeys h.toKeyed),
      readFor_saved h]
    cases s.keyFor decrypt id keyId
    case none => exact .none
    case some => exact .some (.inl carried_routed)

-- What every step keeps.
structure Sane (w : Routing F ι) : Prop where
  saved    : w.saved.Sound
  registry : w.registry.WellFormed
  read     : ∀ i, (w.stage i).Distinct

theorem taken_cases (r : Request) : (∃ items encrypt, r = .importAll items encrypt) ∨
    ∀ s : Saved F, r.taken s = .committed := by
  cases r
  case importAll items encrypt => exact .inl ⟨items, encrypt, rfl⟩
  all_goals exact .inr fun _ => rfl

theorem taken_distinct (r : Request) : (r.taken s).Distinct := by
  cases r <;> trivial

theorem Sane.step (h : w.Sane) (hs : Step decrypt checkBaseUrl requests w event w') :
    w'.Sane := by
  cases hs
  case commits i _ hc =>
    exact ⟨Request.sound_of_change h.saved hc, h.registry, stage_at _ h.read (taken_distinct _)⟩
  case fails => exact ⟨h.saved, h.registry, stage_at _ h.read trivial⟩
  case readsProviders =>
    exact ⟨h.saved, h.registry, stage_at _ h.read (Saved.nodup_listProviders h.saved.toKeyed)⟩
  case readsKeys i ps hi =>
    have hp : (w.stage i).Distinct := h.read i
    rw [hi] at hp
    exact ⟨h.saved, h.registry, stage_at _ h.read ⟨hp, Saved.nodup_runtimeKeys h.saved.toKeyed⟩⟩
  case syncs i ps ks hi =>
    have hd : (w.stage i).Distinct := h.read i
    rw [hi] at hd
    exact ⟨h.saved, Registry.WellFormed.sync h.registry hd.1 hd.2, stage_at _ h.read trivial⟩
  case registers =>
    exact ⟨h.saved, Registry.WellFormed.register h.registry, stage_at _ h.read trivial⟩
  case marks => exact ⟨h.saved, Registry.WellFormed.mark h.registry, h.read⟩

-- The registry holds what's saved, but for what's going to be taken up.
def Tracks (decrypt : String → Option String) (w : Routing F ι) : Prop :=
  (∃ i, (w.stage i).Syncs) ∨ w.Matches decrypt w.Pending

theorem Tracks.step (h : w.Sane) (ht : w.Tracks decrypt) (hc : w.Timely decrypt event)
    (hs : Step decrypt checkBaseUrl requests w event w') : w'.Tracks decrypt := by
  cases hs
  case commits i s hi hch =>
    obtain ⟨items, encrypt, hr⟩ | hr := taken_cases (F := F) (requests i)
    case inr => exact .inl ⟨i, by simp only [hr, stage_at_self, Stage.Syncs]⟩
    case inl =>
      rw [hr] at hch ⊢
      obtain ⟨j, hj⟩ | hm := ht
      case inl =>
        have hu : w.Updated i := updated_of_syncs (by rw [hi]; exact id) hj
        exact .inl hu.at_
      case inr => exact .inr (hm.import h.saved.toKeyed (by rw [hi]; rfl) hch)
  case fails i hi =>
    obtain ⟨j, hj⟩ | hm := ht
    case inl =>
      have hu : w.Updated i := updated_of_syncs (by rw [hi]; exact id) hj
      exact .inl hu.at_
    case inr =>
      have hp : ∀ {item}, w.Pending item → (w.at_ i .finished).Pending item := by
        intro item hp
        obtain hn | hp := hp.at_
        case inl =>
          rw [hi] at hn
          cases hn
        case inr => exact hp
      have hm := hm.mono hp
      exact .inr ⟨hm.providers, hm.keys⟩
  case readsProviders i _ => exact .inl ⟨i, by simp only [stage_at_self, Stage.Syncs]⟩
  case readsKeys i _ _ => exact .inl ⟨i, by simp only [stage_at_self, Stage.Syncs]⟩
  case syncs i ps ks hi =>
    have hd : (w.stage i).Distinct := h.read i
    rw [hi] at hd
    obtain hu | hc := hc
    case inl => exact .inl hu.at_
    case inr =>
      rw [hi] at hc
      refine .inr ((Matches.sync hd.1 hd.2 hc).mono fun {item} hp => ?_)
      refine hp.at_.resolve_left fun hn => ?_
      rw [hi] at hn
      cases hn
  case registers i items item hi =>
    obtain hu | hc := hc
    case inl => exact .inl hu.at_
    case inr =>
      obtain ⟨j, hj⟩ | hm := ht
      case inl =>
        have hu : w.Updated i := updated_of_syncs (by rw [hi]; exact id) hj
        exact .inl hu.at_
      case inr =>
        rw [hi] at hc
        exact .inr (hm.register hi hc)
  case marks => exact ht.imp_right (·.mark _ _)

-- When every edit is over, the registry holds what's saved.
omit [DecidableEq ι] in
theorem Tracks.quiet (ht : w.Tracks decrypt) (hq : w.Quiet) :
    w.Matches decrypt fun _ => False := by
  obtain ⟨i, hi⟩ | hm := ht
  case inl =>
    obtain hw | hf := hq i
    case inl =>
      rw [hw] at hi
      exact hi.elim
    case inr =>
      rw [hf] at hi
      exact hi.elim
  case inr =>
    refine hm.mono ?_
    rintro item ⟨i, hi⟩
    obtain hw | hf := hq i
    case inl =>
      rw [hw] at hi
      cases hi
    case inr =>
      rw [hf] at hi
      cases hi

-- The gateway routes with what's saved.
structure Follows (decrypt : String → Option String) (w : Routing F ι) : Prop
    extends w.Matches decrypt fun _ => False where
  distinct   : w.registry.WellFormed
  selectable : ∀ {id pool entry}, w.registry.lookup id = some pool → pool.provider.enabled →
    entry ∈ pool.keys → entry.key.enabled →
      ∃ p k, w.saved.providers.lookup id = some p ∧ p.enabled ∧
        w.saved.keys.lookup entry.key.id = some k ∧ k.providerId = id ∧ k.enabled

omit [DecidableEq ι] in
theorem Matches.follows (hm : w.Matches decrypt fun _ => False) (h : w.registry.WellFormed) :
    w.Follows decrypt where
  toMatches := hm
  distinct  := h
  selectable {id pool entry} hl hp he hk := by
    have hprov := hm.providers id fun _ => False.elim
    rw [Registry.providerOf, hl] at hprov
    have hin : w.registry.entryOf id entry.key.id = some entry := by
      rw [Registry.entryOf, hl, Option.bind_some]
      exact Registry.entryIn_of_mem (h hl) he
    have hkey := hm.keys id entry.key.id fun _ => False.elim
    rw [hin] at hkey
    cases hf : w.saved.keyFor decrypt id entry.key.id
    case none =>
      rw [hf] at hkey
      cases hkey
    case some k =>
      rw [hf] at hkey
      cases hkey
      case some hst =>
        obtain ⟨k', hk', hw⟩ := Option.map_eq_some_iff.mp hf
        obtain ⟨hl', ho⟩ := Option.filter_eq_some_iff.mp hk'
        refine ⟨pool.provider, k', hprov.symm, hp, hl', of_decide_eq_true ho, ?_⟩
        have hen : k.enabled = k'.enabled := by
          rw [← hw, Saved.withSecret]
          split <;> rfl
        rw [← hen]
        obtain hr | ⟨-, hr⟩ := hst
        case inl =>
          have := congrArg ProviderKey.enabled hr
          exact this.symm.trans hk
        case inr =>
          have := congrArg ProviderKey.enabled hr
          cases this.symm.trans hk

-- The updates that are under way have read a key with its secret.
def Seen (id keyId secret : String) (w : Routing F ι) : Prop :=
  ∀ i, (w.stage i).Saw id keyId secret

theorem taken_saw (r : Request) : (r.taken s).Saw id keyId secret := by
  cases r <;> trivial

-- While a key is saved it's read.
theorem Seen.step (h : w.Sane) (hw : w.Seen id keyId secret) (hh : w.Holds decrypt id keyId secret)
    (hs : Step decrypt checkBaseUrl requests w event w') : w'.Seen id keyId secret := by
  have ⟨k, hk, hsec⟩ := hh.saved
  cases hs
  case commits => exact stage_at _ hw (taken_saw _)
  case fails => exact stage_at _ hw trivial
  case readsProviders =>
    refine stage_at _ hw ?_
    have ⟨k', hk', _⟩ := Option.map_eq_some_iff.mp hk
    have ⟨hl, ho⟩ := Option.filter_eq_some_iff.mp hk'
    have hm := h.saved.owned hl
    rw [of_decide_eq_true ho] at hm
    have ⟨p, hp⟩ := AList.mem_iff_lookup.mp hm
    exact ⟨p, (Saved.find?_listProviders h.saved.toKeyed).trans hp⟩
  case readsKeys i ps hi =>
    refine stage_at _ hw ?_
    have hp := hw i
    rw [hi] at hp
    have ⟨p, hp⟩ := hp
    refine ⟨k, ?_, hsec⟩
    rw [readFor, hp, Option.bind_some, keyOf_runtimeKeys h.saved.toKeyed]
    exact hk
  case syncs => exact stage_at _ hw trivial
  case registers => exact stage_at _ hw trivial
  case marks => exact hw

-- An entry's health is what attempts make of it while the key stays the same secret.
theorem health_step (h : w.Sane) (hw : w.Seen id keyId secret)
    (hh : w.Holds decrypt id keyId secret) (he : w.registry.entryOf id keyId = some entry)
    (hk : entry.key.apiKey = secret) (hs : Step decrypt checkBaseUrl requests w event w') :
    ∃ entry', w'.registry.entryOf id keyId = some entry' ∧ entry'.key.apiKey = secret ∧
      entry'.health = (event.markOf id keyId).elim entry.health (·.health entry.health) := by
  cases hs
  case commits | fails | readsProviders | readsKeys => exact ⟨entry, he, hk, rfl⟩
  case syncs i ps ks hi =>
    have hd : (w.stage i).Distinct := h.read i
    have hr := hw i
    rw [hi] at hd hr
    have ⟨k, hf, hsec⟩ := hr
    have hc := carry_of_eq (hk.trans hsec.symm)
    refine ⟨ProviderKeyPool.carry entry k, ?_, hc.2.trans hsec, hc.1⟩
    simp only [entryOf_sync_eq hd.1 hd.2, hf, he]
    rfl
  case registers i items item hi =>
    simp only [Registry.entryOf_register, he]
    by_cases hid : id = item.1.id ∧ keyId = item.2.id
    case pos =>
      have hp : w.Pending item := ⟨i, by rw [hi]; exact List.mem_cons_self⟩
      have hc := carry_of_eq (hk.trans (hh.pending hp hid.2.symm hid.1.symm).symm)
      rw [if_pos hid]
      exact ⟨_, rfl, hc.2.trans (hh.pending hp hid.2.symm hid.1.symm), hc.1⟩
    case neg =>
      rw [if_neg hid]
      exact ⟨entry, rfl, hk, rfl⟩
  case marks id' keyId' m =>
    simp only [Registry.entryOf_mark, he, Event.markOf]
    by_cases hid : id' = id ∧ keyId' = keyId
    case pos =>
      rw [if_pos ⟨hid.1.symm, hid.2.symm⟩, if_pos hid]
      exact ⟨_, rfl, hk, KeyEntry.mark_health⟩
    case neg =>
      rw [if_neg fun h' => hid ⟨h'.1.symm, h'.2.symm⟩, if_neg hid]
      exact ⟨entry, rfl, hk, rfl⟩

theorem health_run {events : List (Event ι)}
    (r : Run (fun w event w' => w'.Holds decrypt id keyId secret ∧
      Step decrypt checkBaseUrl requests w event w') w events w') (h : w.Sane)
    (hw : w.Seen id keyId secret) (hh : w.Holds decrypt id keyId secret)
    (he : w.registry.entryOf id keyId = some entry) (hk : entry.key.apiKey = secret) :
    ∃ entry', w'.registry.entryOf id keyId = some entry' ∧
      entry'.health = (events.filterMap (·.markOf id keyId)).foldl (fun h m => m.health h)
        entry.health := by
  induction r generalizing entry
  case nil => exact ⟨entry, he, rfl⟩
  case cons _ event _ _ _ hs _ hi =>
    have ⟨entry', he', hk', hm⟩ := health_step h hw hh he hk hs.2
    have ⟨last, hl, hlm⟩ := hi (h.step hs.2) (hw.step h hh hs.2) hs.1 he' hk'
    refine ⟨last, hl, ?_⟩
    rw [hlm, hm, List.filterMap_cons]
    cases event.markOf id keyId <;> rfl

omit [DecidableEq ι] in
theorem Sane.init {reg : Registry} (h : s.Sound) (hr : reg.WellFormed) :
    (init s reg : Routing F ι).Sane := ⟨h, hr, fun _ => trivial⟩

end

end Routing

namespace Sample

-- The first request switches the provider on that's on already.
def twoRequests (i : Fin 2) : Request :=
  match i with
  | 0 => .setEnabled "p" true
  | 1 => .deleteKey "p" "k"

abbrev RoutingStep := Routing.Step (F := Nat) noSecret noMessage twoRequests

def start : Routing Nat (Fin 2) := .init saved (Routing.startup noSecret saved)

theorem enables : (twoRequests 0).change noSecret noMessage saved = .ok saved := rfl

theorem deletes : (twoRequests 1).change noSecret noMessage saved = .ok withoutKey := rfl

end Sample

end Providers
