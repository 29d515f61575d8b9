import Superkiro.Billing.System

namespace Billing

open F64 Except Host

-- What a commit saves and then publishes.
structure Engine.Committed [Host F] (e : Engine F) (io : Io) (candidate : Tables F)
    (e' : Engine F) : Prop where
  normalized : normalize e.tables candidate = .ok e'.tables
  saved      : e.persistent → e'.disk = some (e.snapshotOf io e'.tables)
  kept       : ¬ e.persistent → e'.disk = e.disk
  healthy    : e'.lastPersistenceError = none
  permitted  : e.persistent → e.checkPersist io (e.snapshotOf io e'.tables) = .ok ()

-- What a refused commit leaves behind.
structure Engine.Unchanged (e e' : Engine F) : Prop where
  tables : e'.tables = e.tables
  disk   : e'.disk = e.disk

-- The ways a transaction ends: refused, answered without a change, unsaved, or committed.
inductive Engine.Transacted [Host F] (e : Engine F) (io : Io) :
    Result (Txn F α) → Result α → Engine F → Prop
  | refused   : Transacted e io (.error err) (.error err) e
  | answered  : Transacted e io (.ok (.answer a)) (.ok a) e
  | unsaved   : e.Unchanged e' → Transacted e io (.ok (.write c pub a)) (.error err) e'
  | committed : e.Committed io c e' → Transacted e io (.ok (.write c pub a)) (.ok a) e'

variable {live c n : Tables F} {e e' : Engine F} {io : Io}

theorem newTemplateIds_of_receipts (h : c.responseTemplateReceipts = live.responseTemplateReceipts) :
    newTemplateIds live c = [] := by
  simp only [newTemplateIds, h, List.map_eq_nil_iff, List.filter_eq_nil_iff]
  intro r hr
  simpa using ⟨r, hr, rfl⟩

theorem insertNew_eq_ok {ids ids' : Finset String} {id : String} :
    insertNew ids id = .ok ids' ↔ id ∉ ids ∧ ids' = insert id ids := by
  simp only [insertNew]
  split
  case isTrue h => simp [h]
  case isFalse h =>
    rw [pure_eq_ok]
    simp [h, eq_comm]

variable [Host F]

theorem normalize_of_empty (h : newTemplateIds live c = []) : normalize live c = .ok c := by
  simp [normalize, h, pure, Except.pure]

-- A candidate that issues no receipt is saved as it is.
theorem normalize_of_receipts (h : c.responseTemplateReceipts = live.responseTemplateReceipts) :
    normalize live c = .ok c :=
  normalize_of_empty (newTemplateIds_of_receipts h)

theorem normalize_cases (h : normalize live c = .ok n) :
    (newTemplateIds live c = [] ∧ n = c) ∨ ∃ ids, n = c.withTemplateIds ids ∧ newTemplateIds live c ≠ [] ∧
      validateTemplateInvocationCapacity n.archivedLedgerSummary = .ok () ∧
      (newTemplateIds live c).foldlM insertNew c.archivedLedgerSummary.usageInvocationIds =
        .ok ids := by
  simp only [normalize] at h
  split at h
  case isTrue he =>
    cases h
    exact .inl ⟨by simpa using he, rfl⟩
  case isFalse hn =>
    simp only [bind_eq_ok', ensure_eq_ok, exists_unit, pure_eq_ok] at h
    have ⟨_, ids, hi, hv, hn'⟩ := h
    subst hn'
    exact .inr ⟨ids, rfl, by simpa using hn, hv, hi⟩

namespace Engine

theorem published_eq {pub : Tables F → Tables F} (hp : pub e.tables = c)
    (hn : normalize e.tables c = .ok n) : e.published c n pub = n := by
  by_cases h : newTemplateIds e.tables c = []
  case pos =>
    rw [normalize_of_empty h] at hn
    cases hn
    simp [published, h, hp]
  case neg =>
    cases normalize_cases hn
    case inl hc => exact absurd hc.left h
    case inr hc =>
      have ⟨ids, hn, _⟩ := hc
      subst hn
      simp [published, h, hp, Tables.withTemplateIds]

theorem commit_cases (io : Io) {pub : Tables F → Tables F} (hp : pub e.tables = c) :
    (∃ err e', e.commit io c pub = (.error err, e') ∧ e.Unchanged e') ∨
    (∃ e', e.commit io c pub = (.ok (), e') ∧ e.Committed io c e') := by
  simp only [commit]
  split
  case h_1 err _ => exact .inl ⟨err, e, rfl, rfl, rfl⟩
  case h_2 n hn =>
    have ht := published_eq hp hn
    by_cases hd : e.persistent
    case neg =>
      refine .inr ⟨_, by simp only [hd]; rfl, ?_⟩
      constructor <;> simp_all
    case pos =>
      simp only [hd, if_true]
      split
      case h_1 m _ => exact .inl ⟨_, _, rfl, rfl, rfl⟩
      case h_2 u hs =>
        refine .inr ⟨_, rfl, ?_⟩
        constructor <;> simp_all

-- A transaction whose publication leads memory to its candidate.
def Publishes (t : Tables F) (txn : Result (Txn F α)) : Prop :=
  ∀ {c pub a}, txn = .ok (.write c pub a) → pub t = c

theorem transact_cases (io : Io) {txn : Result (Txn F α)} (hp : Publishes e.tables txn) :
    Transacted e io txn (e.transact io txn).1 (e.transact io txn).2 := by
  cases txn
  case error => exact .refused
  case ok txn =>
    cases txn
    case answer => exact .answered
    case write c pub a =>
      simp only [transact]
      cases commit_cases io (hp rfl)
      case inl h =>
        have ⟨err, e', h, hu⟩ := h
        simp only [h]
        exact .unsaved hu
      case inr h =>
        have ⟨e', h, hc⟩ := h
        simp only [h]
        exact .committed hc

-- A transaction that succeeds answered without a change or was committed.
theorem transact_eq_ok {txn : Result (Txn F α)} (hp : Publishes e.tables txn)
    (h : e.transact io txn = (.ok a, e')) : (txn = .ok (.answer a) ∧ e' = e) ∨
      ∃ c pub, txn = .ok (.write c pub a) ∧ e.Committed io c e' := by
  have ht := transact_cases io hp
  rw [h] at ht
  cases ht
  case answered => exact .inl ⟨rfl, rfl⟩
  case committed hc => exact .inr ⟨_, _, rfl, hc⟩

-- Whether some tables can be saved.
def Saves (e : Engine F) (io : Io) (t : Tables F) : Prop :=
  e.persistent → e.checkPersist io (e.snapshotOf io t) = .ok ()

theorem transact_of_saves {pub : Tables F → Tables F} {a : α} (hn : normalize e.tables c = .ok n)
    (hs : e.Saves io n) : (e.transact io (.ok (.write c pub a))).1 = .ok a := by
  simp only [transact, commit, hn]
  by_cases hp : e.persistent
  case pos => simp [hp, hs hp]
  case neg => simp [hp]

end Engine
end Billing
