import Superkiro.Lib.Run
import Superkiro.Lib.Table

namespace Gateway

-- Instants and durations are in nanoseconds.
structure CompletedInvocation where
  completedAt       : Nat
  modelId           : String
  totalInputTokens  : Nat
  totalOutputTokens : Nat
  deriving DecidableEq

inductive IdempotencyError
  | inProgress (id : String)
  | alreadyCompleted (id : String)
  | alreadyFailed (id : String)
  deriving DecidableEq

def IdempotencyError.toString : IdempotencyError → String
  | inProgress id       => s!"Request with invocation ID '{id}' is already in progress"
  | alreadyCompleted id => s!"Request with invocation ID '{id}' has already completed"
  | alreadyFailed id    => s!"Request with invocation ID '{id}' previously failed"

structure IdempotencyStore where
  inProgress : Table String Nat
  completed  : Table String CompletedInvocation
  failed     : Table String Nat
  ttl        : Nat
  lastSweep  : Option Nat

-- Finished invocations remembered at most, across completed and failed.
def maxRemembered : Nat := 50000

def sweepInterval : Nat := 1000000000

namespace IdempotencyStore

def new (ttl : Nat) : IdempotencyStore := ⟨∅, ∅, ∅, ttl, none⟩

def cleanExpired (s : IdempotencyStore) (now : Nat) : IdempotencyStore :=
  if s.lastSweep.any (now - · < sweepInterval) then s
  else
    { s with
      lastSweep := some now
      completed := s.completed.retain fun _ v => now - v.completedAt < s.ttl
      failed    := s.failed.retain fun _ t => now - t < s.ttl }

def remembered (s : IdempotencyStore) : Nat := s.completed.entries.length + s.failed.entries.length

-- When each remembered invocation finished.
def finished (s : IdempotencyStore) : List (Nat × String) :=
  s.completed.entries.map (fun e => (e.2.completedAt, e.1)) ++
    s.failed.entries.map fun e => (e.2, e.1)

def Earlier (a b : Nat × String) : Prop := toLex a ≤ toLex b

instance : DecidableRel Earlier := fun a b => inferInstanceAs (Decidable (toLex a ≤ toLex b))

def forget (s : IdempotencyStore) (id : String) : IdempotencyStore :=
  { s with completed := s.completed.erase id, failed := s.failed.erase id }

def oldest (s : IdempotencyStore) : List (Nat × String) :=
  (s.finished.insertionSort Earlier).take (maxRemembered / 10)

def makeRoom (s : IdempotencyStore) : IdempotencyStore :=
  if s.remembered < maxRemembered then s else s.oldest.foldl (fun s e => s.forget e.2) s

def room (s : IdempotencyStore) (now : Nat) : IdempotencyStore := (s.cleanExpired now).makeRoom

def tryAcquire (s : IdempotencyStore) (id : String) (now : Nat) :
    Except IdempotencyError Unit × IdempotencyStore :=
  let s := s.room now
  if id ∈ s.inProgress then (.error (.inProgress id), s)
  else if (s.completed.lookup id).any (now - ·.completedAt < s.ttl) then
    (.error (.alreadyCompleted id), s)
  else if (s.failed.lookup id).any (now - · < s.ttl) then (.error (.alreadyFailed id), s)
  else (.ok (), { s with inProgress := s.inProgress.insert id now })

def getCompleted (s : IdempotencyStore) (id : String) (now : Nat) :
    Option CompletedInvocation × IdempotencyStore :=
  let s := s.cleanExpired now
  ((s.completed.lookup id).filter (now - ·.completedAt < s.ttl), s)

def commit (s : IdempotencyStore) (id : String) (record : CompletedInvocation) :
    IdempotencyStore :=
  { s with inProgress := s.inProgress.erase id, completed := s.completed.insert id record }

def abort (s : IdempotencyStore) (id : String) : IdempotencyStore :=
  { s with inProgress := s.inProgress.erase id }

def fail (s : IdempotencyStore) (id : String) (now : Nat) : IdempotencyStore :=
  { s with inProgress := s.inProgress.erase id, failed := s.failed.insert id now }

end IdempotencyStore

-- A manager, the ids of the guards it has handed out and the last reading of the clock.
structure Invocations where
  store  : IdempotencyStore
  guards : List String
  clock  : Nat

namespace Invocations

def new (ttl : Nat) : Invocations := ⟨.new ttl, [], 0⟩

inductive Event
  | acquire (id : String)
  | commit (id : String) (record : CompletedInvocation)
  | fail (id : String)
  | drop (id : String)
  | look (id : String)

-- What happens at an instant. A guard is used up by what is done with it.
inductive Step (s : Invocations) : Nat × Event → Invocations → Prop
  | granted {id : String} {now : Nat} {store' : IdempotencyStore} : s.clock ≤ now → s.store.tryAcquire id now = (.ok (), store') →
    Step s (now, .acquire id) ⟨store', id :: s.guards, now⟩
  | refused {id : String} {now : Nat} {e : IdempotencyError} {store' : IdempotencyStore} :
    s.clock ≤ now → s.store.tryAcquire id now = (.error e, store') →
    Step s (now, .acquire id) ⟨store', s.guards, now⟩
  | commit {id : String} {now : Nat} {record : CompletedInvocation} : s.clock ≤ now → id ∈ s.guards →
    record.completedAt = now →
    Step s (now, .commit id record) ⟨s.store.commit id record, s.guards.erase id, now⟩
  | fail {id : String} {now : Nat} : s.clock ≤ now → id ∈ s.guards →
    Step s (now, .fail id) ⟨s.store.fail id now, s.guards.erase id, now⟩
  | drop {id : String} {now : Nat} : s.clock ≤ now → id ∈ s.guards →
    Step s (now, .drop id) ⟨s.store.abort id, s.guards.erase id, now⟩
  | look {id : String} {now : Nat} : s.clock ≤ now →
    Step s (now, .look id) ⟨(s.store.getCompleted id now).2, s.guards, now⟩

end Invocations

namespace IdempotencyStore

variable {s s' : IdempotencyStore} {id id' : String} {now t : Nat} {ids : List (Nat × String)}

theorem cleanExpired_inProgress : (s.cleanExpired now).inProgress = s.inProgress := by
  rw [cleanExpired]
  split <;> rfl

theorem cleanExpired_ttl : (s.cleanExpired now).ttl = s.ttl := by
  rw [cleanExpired]
  split <;> rfl

theorem remembered_cleanExpired : (s.cleanExpired now).remembered ≤ s.remembered := by
  rw [cleanExpired]
  split
  case isTrue => exact le_refl _
  case isFalse => exact Nat.add_le_add (List.length_filter_le ..) (List.length_filter_le ..)

theorem length_finished : s.finished.length = s.remembered := by
  simp [finished, remembered]

theorem mem_finished : (t, id) ∈ s.finished ↔
    (∃ record, s.completed.lookup id = some record ∧ record.completedAt = t) ∨
    s.failed.lookup id = some t := by
  simp only [finished, List.mem_append, List.mem_map, Prod.mk.injEq]
  refine or_congr ⟨?_, ?_⟩ ⟨?_, ?_⟩
  · rintro ⟨e, he, ht, hid⟩
    exact ⟨e.2, hid ▸ AList.mem_entries_iff.mp he, ht⟩
  · rintro ⟨record, hr, ht⟩
    exact ⟨⟨id, record⟩, AList.mem_entries_iff.mpr hr, ht, rfl⟩
  · rintro ⟨e, he, ht, hid⟩
    exact ht ▸ hid ▸ AList.mem_entries_iff.mp he
  · intro hr
    exact ⟨⟨id, t⟩, AList.mem_entries_iff.mpr hr, rfl, rfl⟩

-- Forgetting invocations one after the other leaves the others.
theorem foldl_forget : ids.foldl (fun s e => s.forget e.2) s =
    { s with
      completed := ids.foldl (fun t e => t.erase e.2) s.completed
      failed    := ids.foldl (fun t e => t.erase e.2) s.failed } := by
  induction ids generalizing s
  case nil => rfl
  case cons hi => rw [List.foldl_cons, hi]; rfl

theorem makeRoom_inProgress : s.makeRoom.inProgress = s.inProgress := by
  rw [makeRoom]
  split
  · rfl
  · rw [foldl_forget]

theorem makeRoom_ttl : s.makeRoom.ttl = s.ttl := by
  rw [makeRoom]
  split
  · rfl
  · rw [foldl_forget]

theorem finished_foldl_forget : (ids.foldl (fun s e => s.forget e.2) s).finished.Perm
    (s.finished.filter fun e => e.2 ∉ ids.map (·.2)) := by
  have herase {α : Type} (t : Table String α) : (ids.foldl (fun t e => t.erase e.2) t).entries.Perm
      (t.entries.filter fun e => e.1 ∉ ids.map (·.2)) := by
    have hf : ids.foldl (fun t e => t.erase e.2) t =
        (ids.map (·.2)).foldl (fun t k => t.erase k) t := by rw [List.foldl_map]
    rw [hf]
    exact AList.entries_foldl_erase
  rw [foldl_forget, finished, finished, List.filter_append, List.filter_map, List.filter_map]
  exact ((herase _).map _).append ((herase _).map _)

instance : IsTrans (Nat × String) Earlier := ⟨fun _ _ _ h₁ h₂ => le_trans h₁ h₂⟩

instance : Std.Total Earlier := ⟨fun _ _ => le_total _ _⟩

-- Room is made by forgetting the invocations that finished first.
theorem makeRoom_cases :
    (s.remembered < maxRemembered ∧ s.makeRoom = s) ∨
    (maxRemembered ≤ s.remembered ∧ ∃ first rest : List (Nat × String),
      s.finished.Perm (first ++ rest) ∧ first.length = maxRemembered / 10 ∧
      (∀ a ∈ first, ∀ b ∈ rest, a.1 ≤ b.1) ∧
      s.makeRoom.finished.Perm (rest.filter fun e => e.2 ∉ first.map (·.2))) := by
  by_cases h : s.remembered < maxRemembered
  case pos => exact .inl ⟨h, by rw [makeRoom, if_pos h]⟩
  case neg =>
    let sorted := s.finished.insertionSort Earlier
    have hp : s.finished.Perm (s.oldest ++ sorted.drop (maxRemembered / 10)) := by
      rw [oldest, List.take_append_drop]
      exact (List.perm_insertionSort _ _).symm
    have hs : (s.oldest ++ sorted.drop (maxRemembered / 10)).Pairwise Earlier := by
      rw [oldest, List.take_append_drop]
      exact List.pairwise_insertionSort _ _
    refine .inr ⟨Nat.not_lt.mp h, s.oldest, sorted.drop (maxRemembered / 10), hp, ?_, ?_, ?_⟩
    · rw [oldest, List.length_take, List.length_insertionSort, length_finished]
      omega
    · intro a ha b hb
      have hab := (List.pairwise_append.mp hs).right.right a ha b hb
      exact (Prod.Lex.le_iff.mp hab).elim le_of_lt (·.left.le)
    · rw [makeRoom, if_neg h]
      refine finished_foldl_forget.trans ((hp.filter _).trans ?_)
      rw [List.filter_append, List.filter_eq_nil_iff.mpr, List.nil_append]
      intro e he
      simp only [decide_eq_true_eq, not_not]
      exact List.mem_map.mpr ⟨e, he, rfl⟩

theorem remembered_makeRoom : s.makeRoom.remembered + 1 ≤ max maxRemembered s.remembered := by
  cases makeRoom_cases (s := s)
  case inl h =>
    rw [h.right]
    exact Nat.le_trans h.left (Nat.le_max_left ..)
  case inr h =>
    have ⟨_, first, rest, hp, hf, _, hm⟩ := h
    have hl := hm.length_eq.le.trans (List.length_filter_le ..)
    have hs := hp.length_eq
    have hmax : maxRemembered / 10 = 5000 := rfl
    rw [List.length_append, length_finished] at hs
    rw [length_finished] at hl
    omega

-- Whether an invocation is remembered both as completed and as failed: a failure that has expired
-- is only swept once a second.
def Twice (s : IdempotencyStore) (id : String) : Prop := id ∈ s.completed ∧ id ∈ s.failed

theorem eq_of_mem_finished {t' : Nat} (h : ¬s.Twice id) (h₁ : (t, id) ∈ s.finished)
    (h₂ : (t', id) ∈ s.finished) : t = t' := by
  have hno {record : CompletedInvocation} {t'' : Nat} (hc : s.completed.lookup id = some record)
      (hf : s.failed.lookup id = some t'') : False :=
    h ⟨AList.mem_of_lookup hc, AList.mem_of_lookup hf⟩
  rcases mem_finished.mp h₁ with ⟨r₁, h₁, ht₁⟩ | h₁ <;>
    rcases mem_finished.mp h₂ with ⟨r₂, h₂, ht₂⟩ | h₂
  · rw [h₁, Option.some.injEq] at h₂
    rw [←ht₁, ←ht₂, h₂]
  · exact (hno h₁ h₂).elim
  · exact (hno h₂ h₁).elim
  · exact Option.some.inj (h₁.symm.trans h₂)

theorem mem_makeRoom (h : (t, id) ∈ s.finished)
    (hs : maxRemembered ≤ s.remembered → ¬s.Twice id) :
    (t, id) ∈ s.makeRoom.finished ∨ ∀ e ∈ s.makeRoom.finished, t ≤ e.1 := by
  cases makeRoom_cases (s := s)
  case inl hr =>
    rw [hr.right]
    exact .inl h
  case inr hr =>
    have ⟨hmax, first, rest, hp, _, hle, hm⟩ := hr
    by_cases hid : id ∈ first.map (·.2)
    case pos =>
      have ⟨⟨t', id'⟩, hf, he⟩ := List.mem_map.mp hid
      subst he
      have ht := eq_of_mem_finished (hs hmax) h (hp.mem_iff.mpr (List.mem_append_left _ hf))
      refine .inr fun e he => ?_
      exact ht ▸ hle _ hf e (List.mem_filter.mp (hm.mem_iff.mp he)).left
    case neg =>
      refine .inl (hm.mem_iff.mpr (List.mem_filter.mpr ⟨?_, by simpa using hid⟩))
      cases List.mem_append.mp (hp.mem_iff.mp h)
      case inl hf => exact absurd (List.mem_map.mpr ⟨_, hf, rfl⟩) hid
      case inr hr => exact hr

theorem mem_of_makeRoom {e : Nat × String} (h : e ∈ s.makeRoom.finished) : e ∈ s.finished := by
  cases makeRoom_cases (s := s)
  case inl hr => exact hr.right ▸ h
  case inr hr =>
    have ⟨_, _, _, hp, _, _, hm⟩ := hr
    exact hp.mem_iff.mpr (List.mem_append_right _ (List.mem_filter.mp (hm.mem_iff.mp h)).left)

theorem mem_cleanExpired (h : (t, id) ∈ s.finished) (hn : now - t < s.ttl) :
    (t, id) ∈ (s.cleanExpired now).finished := by
  rw [cleanExpired]
  split
  case isTrue => exact h
  case isFalse =>
    rw [mem_finished] at h ⊢
    simp only [AList.lookup_retain, decide_eq_true_eq]
    rcases h with ⟨record, hr, ht⟩ | hf
    · exact .inl ⟨record, ⟨hr, ht ▸ hn⟩, ht⟩
    · exact .inr ⟨hf, hn⟩

theorem mem_of_cleanExpired {e : Nat × String} (h : e ∈ (s.cleanExpired now).finished) :
    e ∈ s.finished := by
  rw [cleanExpired] at h
  split at h
  case isTrue => exact h
  case isFalse =>
    rw [mem_finished] at h ⊢
    simp only [AList.lookup_retain, decide_eq_true_eq] at h
    rcases h with ⟨record, ⟨hr, _⟩, ht⟩ | ⟨hf, _⟩
    · exact .inl ⟨record, hr, ht⟩
    · exact .inr hf

theorem room_inProgress : (s.room now).inProgress = s.inProgress :=
  makeRoom_inProgress.trans cleanExpired_inProgress

theorem room_ttl : (s.room now).ttl = s.ttl :=
  makeRoom_ttl.trans cleanExpired_ttl

theorem remembered_room : (s.room now).remembered + 1 ≤ max maxRemembered s.remembered :=
  remembered_makeRoom.trans (max_le_max_left _ remembered_cleanExpired)

-- A guard is only given for an invocation that isn't in progress and that is no longer remembered.
theorem tryAcquire_eq_ok (h : s.tryAcquire id now = (.ok (), s')) :
    s' = { s.room now with inProgress := s.inProgress.insert id now } ∧ id ∉ s.inProgress ∧
    ∀ t, (t, id) ∈ (s.room now).finished → s.ttl ≤ now - t := by
  simp only [tryAcquire] at h
  split at h
  case isTrue => cases h
  case isFalse hi =>
    split at h
    case isTrue => cases h
    case isFalse hc =>
      split at h
      case isTrue => cases h
      case isFalse hf =>
        cases h
        rw [room_inProgress] at hi
        refine ⟨by rw [room_inProgress], hi, fun t ht => ?_⟩
        rw [room_ttl] at hc hf
        cases mem_finished.mp ht
        case inl ht =>
          have ⟨record, hr, ht⟩ := ht
          simpa [hr, ht] using hc
        case inr ht => simpa [ht] using hf

theorem tryAcquire_eq_error (h : s.tryAcquire id now = (.error e, s')) : s' = s.room now := by
  simp only [tryAcquire] at h
  split at h
  · cases h; rfl
  · split at h
    · cases h; rfl
    · split at h <;> cases h; rfl

theorem length_insert_le {α : Type} {table : Table String α} {v : α} :
    (table.insert id v).entries.length ≤ table.entries.length + 1 := by
  rw [AList.entries_insert, List.length_cons]
  exact Nat.succ_le_succ (List.kerase_sublist _ _).length_le

theorem mem_insert_ne {α : Type} {table : Table String α} {v w : α} (h : id' ≠ id)
    (hl : table.lookup id' = some w) : (table.insert id v).lookup id' = some w := by
  rwa [AList.lookup_insert_ne h]

theorem remembered_commit {record : CompletedInvocation} :
    (s.commit id record).remembered ≤ s.remembered + 1 := by
  have h : (s.completed.insert id record).entries.length ≤ _ := length_insert_le
  simp only [remembered, commit]
  omega

theorem remembered_fail : (s.fail id now).remembered ≤ s.remembered + 1 := by
  have h : (s.failed.insert id now).entries.length ≤ _ := length_insert_le
  simp only [remembered, fail]
  omega

theorem mem_commit {record : CompletedInvocation} :
    (record.completedAt, id) ∈ (s.commit id record).finished := by
  simp [mem_finished, commit]

theorem mem_commit_of_ne {record : CompletedInvocation} (hne : id' ≠ id)
    (h : (t, id') ∈ s.finished) : (t, id') ∈ (s.commit id record).finished := by
  rwa [mem_finished, commit, AList.lookup_insert_ne hne, ←mem_finished]

theorem mem_of_commit {record : CompletedInvocation} {e : Nat × String}
    (h : e ∈ (s.commit id record).finished) : e.1 = record.completedAt ∨ e ∈ s.finished := by
  rw [mem_finished, commit] at h
  rcases h with ⟨record', hr, ht⟩ | hf
  · rcases AList.lookup_insert_iff.mp hr with ⟨_, he⟩ | ⟨_, hr⟩
    · exact .inl (he ▸ ht.symm)
    · exact .inr (mem_finished.mpr (.inl ⟨record', hr, ht⟩))
  · exact .inr (mem_finished.mpr (.inr hf))

theorem mem_fail : (now, id) ∈ (s.fail id now).finished := by
  simp [mem_finished, fail]

theorem mem_fail_of_ne (hne : id' ≠ id) (h : (t, id') ∈ s.finished) :
    (t, id') ∈ (s.fail id now).finished := by
  rw [mem_finished] at h ⊢
  rwa [fail, AList.lookup_insert_ne hne]

theorem mem_of_fail {e : Nat × String} (h : e ∈ (s.fail id now).finished) :
    e.1 = now ∨ e ∈ s.finished := by
  rw [mem_finished, fail] at h
  rcases h with hc | hf
  · exact .inr (mem_finished.mpr (.inl hc))
  · rcases AList.lookup_insert_iff.mp hf with ⟨_, he⟩ | ⟨_, hf⟩
    · exact .inl he.symm
    · exact .inr (mem_finished.mpr (.inr hf))

end IdempotencyStore

namespace Invocations

variable {s s' : Invocations} {e : Nat × Event} {es : List (Nat × Event)} {id : String} {t ttl : Nat}

-- The invocations in progress are those with a guard, which is the only one.
structure Sound (s : Invocations) : Prop where
  nodup : s.guards.Nodup
  mem   : ∀ id, id ∈ s.guards ↔ id ∈ s.store.inProgress

theorem Sound.erase (h : s.Sound) {store : IdempotencyStore} {now : Nat}
    (hs : store.inProgress = s.store.inProgress.erase id) :
    Sound ⟨store, s.guards.erase id, now⟩ where
  nodup  := h.nodup.erase id
  mem id := by rw [hs, AList.mem_erase, h.nodup.mem_erase_iff, h.mem]

theorem Sound.of_room (h : s.Sound) {store : IdempotencyStore} {now : Nat}
    (hs : store.inProgress = s.store.inProgress) : Sound ⟨store, s.guards, now⟩ where
  nodup  := h.nodup
  mem id := by rw [hs, h.mem]

theorem Step.sound (hs : Step s e s') (h : s.Sound) : s'.Sound := by
  cases hs
  case granted id now store' _ ha =>
    have ⟨hs, hi, _⟩ := IdempotencyStore.tryAcquire_eq_ok ha
    subst hs
    refine ⟨List.nodup_cons.mpr ⟨mt (h.mem id).mp hi, h.nodup⟩, fun id' => ?_⟩
    rw [List.mem_cons, AList.mem_insert, h.mem]
  case refused ha =>
    rw [IdempotencyStore.tryAcquire_eq_error ha]
    exact h.of_room IdempotencyStore.room_inProgress
  case commit => exact h.erase rfl
  case fail => exact h.erase rfl
  case drop => exact h.erase rfl
  case look => exact h.of_room IdempotencyStore.cleanExpired_inProgress

-- Room is made before a guard is given, and each guard leaves at most one more invocation to
-- remember.
theorem Step.bounded (hs : Step s e s') (hp : s'.guards.length ≤ p)
    (h : s.store.remembered + s.guards.length ≤ maxRemembered + p) :
    s'.store.remembered + s'.guards.length ≤ maxRemembered + p := by
  cases hs
  case granted id now store' _ ha =>
    have ⟨hs, _⟩ := IdempotencyStore.tryAcquire_eq_ok ha
    have hr : (s.store.room now).remembered + 1 ≤ _ := IdempotencyStore.remembered_room
    subst hs
    simp only [List.length_cons, IdempotencyStore.remembered] at hp hr h ⊢
    omega
  case refused now _ _ _ ha =>
    rw [IdempotencyStore.tryAcquire_eq_error ha]
    have hr : (s.store.room now).remembered + 1 ≤ _ := IdempotencyStore.remembered_room
    simp only at hp ⊢
    omega
  case commit id _ record _ hg _ =>
    have hr : (s.store.commit id record).remembered ≤ _ := IdempotencyStore.remembered_commit
    have hl := List.length_erase_of_mem hg
    have hpos := List.length_pos_of_mem hg
    simp only at hp ⊢
    omega
  case fail id now _ hg =>
    have hr : (s.store.fail id now).remembered ≤ _ := IdempotencyStore.remembered_fail
    have hl := List.length_erase_of_mem hg
    have hpos := List.length_pos_of_mem hg
    simp only at hp ⊢
    omega
  case drop id now _ hg =>
    have hr : (s.store.abort id).remembered = s.store.remembered := rfl
    have hl := List.length_erase_of_mem hg
    simp only at hp ⊢
    omega
  case look id now _ =>
    have hr : (s.store.cleanExpired now).remembered ≤ _ := IdempotencyStore.remembered_cleanExpired
    simp only [IdempotencyStore.getCompleted] at hp ⊢
    omega

-- An acquisition that forgets invocations to make room.
def MakesRoom (s : Invocations) (e : Nat × Event) : Prop :=
  (∃ id, e.2 = .acquire id) ∧ maxRemembered ≤ (s.store.cleanExpired e.1).remembered

-- Where room is made, the invocation isn't remembered twice.
def Once (id : String) (s : Invocations) (e : Nat × Event) : Prop :=
  s.MakesRoom e → ¬(s.store.cleanExpired e.1).Twice id

-- An invocation that finished at an instant is remembered and not in progress. Or else room has
-- been made, and none that finished before is remembered either.
structure Kept (id : String) (t ttl : Nat) (made : Prop) (s : Invocations) : Prop where
  ttl   : s.store.ttl = ttl
  clock : t ≤ s.clock
  kept  : ((t, id) ∈ s.store.finished ∧ id ∉ s.guards) ∨
    made ∧ ∀ e ∈ s.store.finished, t ≤ e.1

variable {made : Prop}

theorem Kept.room {now : Nat} {id' : String} (h : s.Kept id t ttl made) (hc : s.clock ≤ now)
    (hn : now < t + ttl) (hm : s.MakesRoom (now, .acquire id') → made)
    (ho : Once id s (now, .acquire id')) :
    ((t, id) ∈ (s.store.room now).finished ∧ id ∉ s.guards) ∨
    made ∧ ∀ e ∈ (s.store.room now).finished, t ≤ e.1 := by
  cases h.kept
  case inr hk =>
    exact .inr ⟨hk.left, fun e he => hk.right e <|
      IdempotencyStore.mem_of_cleanExpired (IdempotencyStore.mem_of_makeRoom he)⟩
  case inl hk =>
    have hfresh : now - t < s.store.ttl := by
      have ht := h.ttl
      have hclock := h.clock
      omega
    have hclean := IdempotencyStore.mem_cleanExpired hk.left hfresh
    by_cases hr : s.MakesRoom (now, .acquire id')
    case pos =>
      cases IdempotencyStore.mem_makeRoom hclean fun _ => ho hr
      case inl hk' => exact .inl ⟨hk', hk.right⟩
      case inr hk' => exact .inr ⟨hm hr, hk'⟩
    case neg =>
      have hless : (s.store.cleanExpired now).remembered < maxRemembered :=
        Nat.not_le.mp fun hle => hr ⟨⟨id', rfl⟩, hle⟩
      rw [IdempotencyStore.room, IdempotencyStore.makeRoom, if_pos hless]
      exact .inl ⟨hclean, hk.right⟩

-- A guard given for an invocation before its time has passed means that room was made, and that
-- none that finished before it is remembered.
theorem Kept.granted {now : Nat} {store : IdempotencyStore} (h : s.Kept id t ttl made)
    (hc : s.clock ≤ now) (hn : now < t + ttl) (hm : s.MakesRoom (now, .acquire id) → made)
    (ho : Once id s (now, .acquire id)) (ha : s.store.tryAcquire id now = (.ok (), store)) :
    made ∧ ∀ e ∈ store.finished, t ≤ e.1 := by
  have ⟨hs, _, hexpired⟩ := IdempotencyStore.tryAcquire_eq_ok ha
  subst hs
  cases h.room hc hn hm ho
  case inr hk => exact hk
  case inl hk =>
    have ht := h.ttl
    have hclock := h.clock
    have hexpired := hexpired t hk.left
    omega

theorem Kept.step (h : s.Kept id t ttl made) (hs : Step s e s') (hm : s.MakesRoom e → made)
    (ho : Once id s e) (hn : e.1 < t + ttl) : s'.Kept id t ttl made := by
  have hclock := h.clock
  cases hs
  case granted id' now store hc ha =>
    have ⟨hs, _⟩ := IdempotencyStore.tryAcquire_eq_ok ha
    refine ⟨?_, hclock.trans hc, ?_⟩
    · rw [hs]
      exact IdempotencyStore.room_ttl.trans h.ttl
    · by_cases he : id' = id
      case pos =>
        subst he
        exact .inr (h.granted hc hn hm ho ha)
      case neg =>
        subst hs
        cases h.room hc hn hm ho
        case inr hk => exact .inr hk
        case inl hk => exact .inl ⟨hk.left, by simp [hk.right, Ne.symm he]⟩
  case refused hc ha =>
    rw [IdempotencyStore.tryAcquire_eq_error ha]
    exact ⟨IdempotencyStore.room_ttl.trans h.ttl, hclock.trans hc, h.room hc hn hm ho⟩
  case commit id' now record hc hg ht =>
    refine ⟨h.ttl, hclock.trans hc, ?_⟩
    cases h.kept
    case inl hk =>
      have hne : id ≠ id' := fun he => hk.right (he ▸ hg)
      exact .inl ⟨IdempotencyStore.mem_commit_of_ne hne hk.left,
        fun hm => hk.right (List.mem_of_mem_erase hm)⟩
    case inr hk =>
      refine .inr ⟨hk.left, fun e he => ?_⟩
      cases IdempotencyStore.mem_of_commit he
      case inl he =>
        rw [he, ht]
        exact hclock.trans hc
      case inr he => exact hk.right e he
  case fail id' now hc hg =>
    refine ⟨h.ttl, hclock.trans hc, ?_⟩
    cases h.kept
    case inl hk =>
      have hne : id ≠ id' := fun he => hk.right (he ▸ hg)
      exact .inl ⟨IdempotencyStore.mem_fail_of_ne hne hk.left,
        fun hm => hk.right (List.mem_of_mem_erase hm)⟩
    case inr hk =>
      refine .inr ⟨hk.left, fun e he => ?_⟩
      cases IdempotencyStore.mem_of_fail he
      case inl he =>
        rw [he]
        exact hclock.trans hc
      case inr he => exact hk.right e he
  case drop id' now hc hg =>
    refine ⟨h.ttl, hclock.trans hc, ?_⟩
    cases h.kept
    case inr hk => exact .inr hk
    case inl hk => exact .inl ⟨hk.left, fun hm => hk.right (List.mem_of_mem_erase hm)⟩
  case look id' now hc =>
    refine ⟨IdempotencyStore.cleanExpired_ttl.trans h.ttl, hclock.trans hc, ?_⟩
    cases h.kept
    case inr hk =>
      exact .inr ⟨hk.left, fun e he => hk.right e (IdempotencyStore.mem_of_cleanExpired he)⟩
    case inl hk =>
      have ht := h.ttl
      have hn : now < t + ttl := hn
      exact .inl ⟨IdempotencyStore.mem_cleanExpired hk.left (by omega), hk.right⟩

-- An event in which the guard of an invocation commits or fails.
def Event.Finishes (id : String) : Event → Prop
  | .commit id' _ | .fail id' => id' = id
  | _                         => False

theorem Step.kept {event : Event} (hs : Step s (t, event) s') (h : s.Sound)
    (hf : event.Finishes id) : s'.Kept id t s.store.ttl made := by
  cases hs <;> simp only [Event.Finishes] at hf
  case commit id' record hc hg ht =>
    subst hf
    refine ⟨rfl, le_refl _, .inl ⟨ht ▸ IdempotencyStore.mem_commit, ?_⟩⟩
    exact h.nodup.not_mem_erase
  case fail id' hc hg =>
    subst hf
    exact ⟨rfl, le_refl _, .inl ⟨IdempotencyStore.mem_fail, h.nodup.not_mem_erase⟩⟩

theorem new_sound : (new ttl).Sound :=
  ⟨List.nodup_nil, fun id => by simp [new, IdempotencyStore.new]⟩

theorem step_ttl (hs : Step s e s') : s'.store.ttl = s.store.ttl := by
  cases hs
  case granted ha =>
    rw [(IdempotencyStore.tryAcquire_eq_ok ha).left]
    exact IdempotencyStore.room_ttl
  case refused ha =>
    rw [IdempotencyStore.tryAcquire_eq_error ha]
    exact IdempotencyStore.room_ttl
  case commit => rfl
  case fail => rfl
  case drop => rfl
  case look => exact IdempotencyStore.cleanExpired_ttl

theorem Step.clock (hs : Step s e s') : s.clock ≤ e.1 ∧ s'.clock = e.1 := by
  cases hs <;> exact ⟨‹_›, rfl⟩

-- What is known of a finished invocation is known for as long as its time hasn't passed.
theorem run_kept {step : Invocations → Nat × Event → Invocations → Prop}
    (hstep : ∀ {s e s'}, step s e s' → Step s e s' ∧ (s.MakesRoom e → made) ∧ Once id s e)
    (r : Run step s es s') (h : s.Kept id t ttl made) (hn : s'.clock < t + ttl) :
    s'.Kept id t ttl made := by
  refine r.preserves (I := fun s => s.clock < t + ttl → s.Kept id t ttl made) ?_ (fun _ => h) hn
  intro s e s' hk hs hn
  have ⟨hs, hm, ho⟩ := hstep hs
  have ⟨hc, he⟩ := hs.clock
  exact (hk (by omega)).step hs hm ho (by omega)

theorem run_sound (r : Run Step (new ttl) es s) : s.Sound :=
  r.preserves (fun h hs => Step.sound hs h) new_sound

theorem run_ttl (r : Run Step (new ttl) es s) : s.store.ttl = ttl :=
  r.preserves (I := fun s => s.store.ttl = ttl) (fun h hs => (step_ttl hs).trans h) rfl

def failedOnce : IdempotencyStore := ((IdempotencyStore.new 10).tryAcquire "a" 1).2.fail "a" 2

def number (n : Nat) : String := .ofList (List.replicate n 'n')

theorem number_injective (h : number m = number n) : m = n := by
  have h := congrArg String.length h
  simpa [number] using h

theorem tryAcquire_unremembered {store : IdempotencyStore} (now : Nat) (hc : store.completed = ∅)
    (hf : store.failed = ∅) (hi : id ∉ store.inProgress) : ∃ store',
    store.tryAcquire id now = (.ok (), store') ∧ store'.completed = ∅ ∧ store'.failed = ∅ := by
  have hclean : (store.cleanExpired now).completed = ∅ ∧ (store.cleanExpired now).failed = ∅ := by
    rw [IdempotencyStore.cleanExpired]
    split
    · exact ⟨hc, hf⟩
    · exact ⟨by simp only [hc]; rfl, by simp only [hf]; rfl⟩
  have hr : store.room now = store.cleanExpired now := by
    rw [IdempotencyStore.room, IdempotencyStore.makeRoom, if_pos]
    rw [IdempotencyStore.remembered, hclean.left, hclean.right]
    decide
  have hi : id ∉ (store.room now).inProgress := by rwa [IdempotencyStore.room_inProgress]
  let inProgress := (store.cleanExpired now).inProgress.insert id now
  refine ⟨{ store.cleanExpired now with inProgress }, ?_, hclean⟩
  simp only [IdempotencyStore.tryAcquire, if_neg hi]
  rw [hr, hclean.left, hclean.right]
  rfl

theorem acquires (ttl n : Nat) : ∃ es s, Run Step (new ttl) es s ∧ s.clock = 0 ∧
    s.guards = (List.range n).reverse.map number ∧ s.store.completed = ∅ ∧ s.store.failed = ∅ := by
  induction n
  case zero => exact ⟨[], _, .nil, rfl, rfl, rfl, rfl⟩
  case succ n hi =>
    have ⟨es, s, r, ht, hg, hc, hf⟩ := hi
    have hn : number n ∉ s.store.inProgress := by
      rw [←(run_sound r).mem, hg]
      simp only [List.mem_map, List.mem_reverse, List.mem_range, not_exists, not_and]
      exact fun m hm he => hm.ne (number_injective he)
    have ⟨store, ha, hc, hf⟩ := tryAcquire_unremembered 0 hc hf hn
    have r := r.trans (.single (.granted ht.le ha))
    exact ⟨_, _, r, rfl, by simp [List.range_succ, hg], hc, hf⟩

theorem fails {guards : List String} (hg : s.guards = guards) (hn : guards.Nodup)
    (hf : ∀ g ∈ guards, g ∉ s.store.failed) : ∃ es s', Run Step s es s' ∧ s'.guards = [] ∧
    s'.store.remembered = s.store.remembered + guards.length := by
  induction guards generalizing s
  case nil => exact ⟨[], s, .nil, hg, rfl⟩
  case cons g guards hi =>
    have hs : Step s (s.clock, .fail g) _ := .fail (le_refl _) (by simp [hg])
    have ⟨hgn, hn⟩ := List.nodup_cons.mp hn
    have ⟨es, s', r, hg', hr⟩ := hi (s := ⟨s.store.fail g s.clock, s.guards.erase g, s.clock⟩)
      (by simp [hg]) hn (fun g' hm hf' => by
        rw [IdempotencyStore.fail, AList.mem_insert] at hf'
        cases hf'
        case inl he => exact hgn (he ▸ hm)
        case inr hf' => exact hf g' (by simp [hm]) hf')
    refine ⟨_, s', .cons hs r, hg', ?_⟩
    rw [hr, IdempotencyStore.remembered, IdempotencyStore.remembered, IdempotencyStore.fail,
      AList.entries_insert_of_notMem (hf g (by simp))]
    simp only [List.length_cons]
    omega

end Invocations

end Gateway
