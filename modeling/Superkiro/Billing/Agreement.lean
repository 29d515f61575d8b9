import Superkiro.Billing.Exec

namespace Billing

open F64 Except Host

-- Operations that write nothing: holds are taken and returned in memory, and so are the slots of
-- template waits.
def Op.isHold : Op F → Bool
  | .reserve .. | .release _ => true
  | _                        => false

-- Operations that commit what they do.
def Op.isCommitting : Op F → Bool
  | .reserve .. | .release _ | .beginResponseTemplateWait .. | .dropWaitSlot .. | .protect _
  | .restart | .reload => false
  | _                  => true

namespace Engine

variable [F64 F] [Host F] {e : Engine F} {io : Io} {id : String}

-- Whether an operation succeeds. The janitor doesn't say when what it did couldn't be saved.
def outcome (e : Engine F) (io : Io) : Op F → Result Unit
  | .reserve cardId id p now ttl            => (e.reserve cardId id p now ttl).1.map fun _ => ()
  | .extendReservation id amount now        => (e.extendReservation io id amount now).1.map fun _ => ()
  | .settle id tokens exposed provider target now =>
    (e.settle io id tokens exposed provider target now).1.map fun _ => ()
  | .retryPendingSettlement id              => (e.retryPendingSettlement io id).1.map fun _ => ()
  | .release id                             => (e.release id).1
  | .runJanitor _                           => .ok ()
  | .chargeResponseTemplate revision ruleId modelId r now =>
    (e.chargeResponseTemplate io revision ruleId modelId r now).1.map fun _ => ()
  | .publishResponseTemplates u now         => (e.publishResponseTemplates io u now).1.map fun _ => ()
  | .freezeCard cardId operator reason now  =>
    (e.freezeCard io cardId operator reason now).1.map fun _ => ()
  | .unfreezeCard cardId operator reason now =>
    (e.unfreezeCard io cardId operator reason now).1.map fun _ => ()
  | .banCard cardId operator reason now     => (e.banCard io cardId operator reason now).1.map fun _ => ()
  | .unbanCard cardId operator reason now   =>
    (e.unbanCard io cardId operator reason now).1.map fun _ => ()
  | .voidCard cardId operator reason now unactivatedOnly =>
    (e.voidCard io cardId operator reason now unactivatedOnly).1.map fun _ => ()
  | .changeCardGroup cardId groupId operator reason now =>
    (e.changeCardGroup io cardId groupId operator reason now).1.map fun _ => ()
  | .extendValidity cardIds x operator reason now =>
    (e.extendValidity io cardIds x operator reason now).1.map fun _ => ()
  | .adjustCardBalance a                    => (e.adjustCardBalance io a).1.map fun _ => ()
  | .redeemTopup cardId code now operator   =>
    (e.redeemTopup io cardId code now operator).1.map fun _ => ()
  | .renewWithCard cardId code now          => (e.renewWithCard io cardId code now).1.map fun _ => ()
  | .upgradeCard u                          => (e.upgradeCard io u).1.map fun _ => ()
  | .archiveLedger before                   => (e.archiveLedger io before).1.map fun _ => ()
  | .publishCommercialConfig u now          => (e.publishCommercialConfig io u now).1.map fun _ => ()
  | .activateCard cardId now duration       => (e.activateCard io cardId now duration).1.map fun _ => ()
  | .activateCardWithDevice cardId now duration device =>
    (e.activateCardWithDevice io cardId now duration device).1.map fun _ => ()
  | .bindDevice cardId device               => (e.bindDevice io cardId device).1
  | .unbindDevice cardId device             => (e.unbindDevice io cardId device).1
  | .adminUnbindDevice cardId device operator reason now =>
    (e.adminUnbindDevice io cardId device operator reason now).1.map fun _ => ()
  | .resetRebinds cardId operator reason now =>
    (e.resetRebinds io cardId operator reason now).1.map fun _ => ()
  | .rekeyCard cardId new operator reason now =>
    (e.rekeyCard io cardId new operator reason now).1.map fun _ => ()
  | .setCardCodeHash cardId codeHash        => (e.setCardCodeHash io cardId codeHash).1.map fun _ => ()
  | .revokeTokens cardId                    => (e.revokeTokens io cardId).1.map fun _ => ()
  | .consumeRefreshToken jti expires now    => (e.consumeRefreshToken io jti expires now).1
  | .rotateRefresh cardId presented jti expires now grace =>
    (e.rotateRefresh io cardId presented jti expires now grace).1.map fun _ => ()
  | .setCardArchived cardId archived operator reason now =>
    (e.setCardArchived io cardId archived operator reason now).1.map fun _ => ()
  | .beginResponseTemplateWait revision ruleId modelId cardId id now =>
    (e.beginResponseTemplateWait revision ruleId modelId cardId id now).1
  | .dropWaitSlot .. | .protect _ | .restart | .reload => .ok ()

-- How memory and disk are left by an operation that succeeded, or failed. What succeeds without a
-- change is answered without a write.
inductive Agrees (e : Engine F) (io : Io) : Result Unit → Engine F → Prop
  | unchanged : e.Unchanged e' → Agrees e io r e'
  | saved     : e'.disk = some (e.snapshotOf io e'.tables) → Agrees e io (.ok ()) e'

omit [F64 F] in
theorem Agrees.of_transact (hp : e.persistent) {txn : Result (Txn F α)}
    (h : Publishes e.tables txn) :
    Agrees e io ((e.transact io txn).1.map fun _ => ()) (e.transact io txn).2 := by
  have ht := transact_cases io h
  generalize (e.transact io txn).1 = r at ht
  generalize (e.transact io txn).2 = e' at ht
  cases ht
  case refused => exact .unchanged ⟨rfl, rfl⟩
  case answered => exact .unchanged ⟨rfl, rfl⟩
  case unsaved hu => exact .unchanged hu
  case committed hc => exact .saved (hc.saved hp)

theorem Agrees.of_commits {M : Change F → Prop} (hp : e.persistent) {txn : Result (Txn F α)}
    (h : Commits e.tables M txn) :
    Agrees e io ((e.transact io txn).1.map fun _ => ()) (e.transact io txn).2 :=
  .of_transact hp h.publishes

theorem isOk_map {r : Result α} : (r.map fun _ => ()).isOk ↔ ∃ a, r = .ok a := by
  cases r <;> simp [Except.map, Except.isOk, Except.toBool]

omit [F64 F] in
-- An operation that fails in a transaction leaves the tables as they were.
theorem transact_failed {txn : Result (Txn F α)} (hp : Publishes e.tables txn)
    (h : ¬((e.transact io txn).1.map fun _ => ()).isOk) : (e.transact io txn).2.tables = e.tables := by
  have ht := transact_cases io hp
  generalize (e.transact io txn).1 = r at ht h
  generalize (e.transact io txn).2 = e' at ht
  cases ht
  case refused => rfl
  case answered => rfl
  case unsaved hu => exact hu.tables
  case committed => exact absurd rfl h

theorem map_unit (r : Result Unit) : r.map (fun _ => ()) = r := by
  cases r <;> rfl

theorem Agrees.of_commits_unit {M : Change F → Prop} (hp : e.persistent) {txn : Result (Txn F Unit)}
    (h : Commits e.tables M txn) : Agrees e io (e.transact io txn).1 (e.transact io txn).2 :=
  map_unit (e.transact io txn).1 ▸ .of_commits hp h

theorem runJanitor_agrees (hp : e.persistent) (hk : e.tables.Keyed) :
    Agrees e io (.ok ()) (e.runJanitor io now).2 := by
  have h : Agrees e io _ _ := .of_commits hp (runJanitor_commits e.activeReservations now hk)
  simp only [runJanitor]
  split
  case h_1 he =>
    rw [he] at h
    exact h
  case h_2 he =>
    rw [he] at h
    cases h
    case unchanged hu => exact .unchanged hu

theorem adjustCardBalance_agrees (hp : e.persistent) {a : BalanceAdjustment} :
    Agrees e io ((e.adjustCardBalance io a).1.map fun _ => ()) (e.adjustCardBalance io a).2 := by
  have h : Agrees e io _ _ := .of_commits hp
    (adjustCardBalance_commits (t := e.tables) (parseJson F) e.compensations e.archives a)
  simp only [adjustCardBalance]
  split
  case h_1 he =>
    rw [he] at h
    cases h
    case unchanged hu => exact .unchanged ⟨hu.tables, hu.disk⟩
    case saved hs => exact .saved hs
  case h_2 => exact h

theorem archiveLedger_agrees (hp : e.persistent) :
    Agrees e io ((e.archiveLedger io before).1.map fun _ => ()) (e.archiveLedger io before).2 := by
  have hc := archiveLedger_commits (t := e.tables) before (e.archiveReceipt io before) rfl
  simp only [archiveLedger]
  split
  case h_1 txn ht _ =>
    rw [ht] at hc
    let files := e.archiveFiles.insert (e.archiveReceipt io before).archiveFile
      (e.tables.archived before)
    have h : Agrees { e with archiveFiles := files } io _ _ :=
      .of_commits (e := { e with archiveFiles := files }) hp hc
    generalize ({ e with archiveFiles := files }.transact io (.ok txn)) = r at h
    generalize r.1.map (fun _ => ()) = u at h
    cases h
    case unchanged hu => exact .unchanged ⟨hu.tables, hu.disk⟩
    case saved hs => exact .saved hs
  case h_2 => exact .unchanged ⟨rfl, rfl⟩
  case h_3 => exact .unchanged ⟨rfl, rfl⟩

-- A bill that isn't debited stays pending, saved or not.
structure LeftPending (e : Engine F) (io : Io) (id : String) (e' : Engine F) : Prop where
  new    : e.tables.pendingSettlements.lookup id = none
  tables : ∃ p, e'.tables = e.tables.withPending id p
  disk   : e'.disk = e.disk ∨ e'.disk = some (e.snapshotOf io e'.tables)

theorem settle_agrees (hp : e.persistent) :
    Agrees e io ((e.settle io id tokens exposed provider target now).1.map fun _ => ())
      (e.settle io id tokens exposed provider target now).2 ∨
    ((∃ err, (e.settle io id tokens exposed provider target now).1 = .error err) ∧
      LeftPending e io id (e.settle io id tokens exposed provider target now).2) := by
  have h : Settling e io id (e.settle io id tokens exposed provider target now).1 _ := settle_cases
  generalize (e.settle io id tokens exposed provider target now).1 = r at h ⊢
  generalize (e.settle io id tokens exposed provider target now).2 = e' at h ⊢
  cases h
  case refused => exact .inl (.unchanged ⟨rfl, rfl⟩)
  case debited hc => exact .inl (.saved (hc.saved hp))
  case failed hu => exact .inl (.unchanged hu)
  case pending p hn _ hc =>
    exact .inr ⟨⟨_, rfl⟩, hn, ⟨p, hc.tables_eq rfl⟩, .inr (hc.saved hp)⟩
  case unsaved p e' hn _ hu =>
    exact .inr ⟨⟨_, rfl⟩, hn, ⟨p, by rw [hu.tables]⟩, .inl hu.disk⟩

omit [Host F] in
theorem reserve_disk (e : Engine F) : (e.reserve cardId id p now ttl).2.disk = e.disk ∧
    (e.reserve cardId id p now ttl).2.tables = { e.tables with
      cards        := (e.reserve cardId id p now ttl).2.tables.cards
      reservations := (e.reserve cardId id p now ttl).2.tables.reservations } := by
  simp only [reserve]
  split <;> exact ⟨rfl, rfl⟩

omit [F64 F] [Host F] in
theorem release_disk (e : Engine F) : (e.release id).2.disk = e.disk ∧
    (e.release id).2.tables = { e.tables with
      cards        := (e.release id).2.tables.cards
      reservations := (e.release id).2.tables.reservations } := by
  simp only [release]
  split
  case isTrue => exact ⟨rfl, rfl⟩
  case isFalse =>
    split
    case h_1 => exact ⟨rfl, rfl⟩
    case h_2 => split <;> exact ⟨rfl, rfl⟩

theorem exec_agrees (hp : e.persistent) (hk : e.tables.Keyed) {op : Op F} (hop : op.isCommitting) :
    Agrees e io (e.outcome io op) (e.exec io op) ∨
    ∃ id tokens exposed provider target now, op = .settle id tokens exposed provider target now ∧
      (∃ err, e.outcome io op = .error err) ∧ LeftPending e io id (e.exec io op) := by
  cases op <;> simp only [outcome, exec]
  case settle id tokens exposed provider target now =>
    refine (settle_agrees hp).imp (fun h => h) fun h => ?_
    obtain ⟨⟨err, he⟩, hl⟩ := h
    exact ⟨id, tokens, exposed, provider, target, now, rfl, ⟨err, by simp [he, Except.map]⟩, hl⟩
  case extendReservation => exact .inl (.of_commits hp extendReservation_commits)
  case retryPendingSettlement => exact .inl (.of_commits hp retryPendingSettlement_commits)
  case runJanitor => exact .inl (runJanitor_agrees hp hk)
  case chargeResponseTemplate => exact .inl (.of_commits hp templateCharge_commits)
  case publishResponseTemplates => exact .inl (.of_commits hp publishTemplates_commits)
  case freezeCard => exact .inl (.of_commits hp (.of_post freezeCard_posts))
  case unfreezeCard => exact .inl (.of_commits hp (.of_post unfreezeCard_posts))
  case banCard => exact .inl (.of_commits hp (.of_post banCard_posts))
  case unbanCard => exact .inl (.of_commits hp (.of_post unbanCard_posts))
  case voidCard => exact .inl (.of_commits hp (.of_post voidCard_posts))
  case changeCardGroup => exact .inl (.of_commits hp (.of_post changeCardGroup_posts))
  case extendValidity => exact .inl (.of_commits hp (extendValidity_commits hk))
  case adjustCardBalance => exact .inl (adjustCardBalance_agrees hp)
  case redeemTopup => exact .inl (.of_commits hp (redeemTopup_commits hk))
  case renewWithCard => exact .inl (.of_commits hp (renewWithCard_commits hk))
  case upgradeCard => exact .inl (.of_commits hp (.of_post upgradeCard_posts))
  case archiveLedger => exact .inl (archiveLedger_agrees hp)
  case publishCommercialConfig => exact .inl (.of_commits hp publishCommercialConfig_commits)
  case activateCard => exact .inl (.of_commits hp (.of_replace activateCard_replaces))
  case activateCardWithDevice => exact .inl (.of_commits hp (.of_replace activateCardWithDevice_replaces))
  case bindDevice => exact .inl (.of_commits_unit hp (.of_replace bindDevice_replaces))
  case unbindDevice => exact .inl (.of_commits_unit hp (.of_replace unbindDevice_replaces))
  case adminUnbindDevice => exact .inl (.of_commits hp (.of_post adminUnbindDevice_posts))
  case resetRebinds => exact .inl (.of_commits hp (.of_post resetRebinds_posts))
  case rekeyCard => exact .inl (.of_commits hp (.of_post rekeyCard_posts))
  case setCardCodeHash => exact .inl (.of_commits hp (.of_replace setCardCodeHash_replaces))
  case revokeTokens => exact .inl (.of_commits hp (.of_replace revokeTokens_replaces))
  case consumeRefreshToken => exact .inl (.of_commits_unit hp consumeRefreshToken_commits)
  case rotateRefresh => exact .inl (.of_commits hp rotateRefresh_commits)
  case setCardArchived => exact .inl (.of_commits hp (.of_post setCardArchived_posts))
  case reserve | release | beginResponseTemplateWait | dropWaitSlot | protect | restart | reload =>
    cases hop

theorem hold_disk {op : Op F} (hop : op.isHold) : (e.exec io op).disk = e.disk ∧
    (e.exec io op).tables = { e.tables with
      cards        := (e.exec io op).tables.cards
      reservations := (e.exec io op).tables.reservations } := by
  cases op
  case reserve => exact reserve_disk e
  case release => exact release_disk e
  all_goals cases hop

-- Cards stay keyed by their ids, in every run.
theorem Started.keyed {e₀ : Engine F} {ls : List (Label F)} (h : e₀.Started)
    (run : Run Step e₀ ls e) : e.tables.Keyed :=
  ((h.invariant.mono (·.keyed)).run (·) (fun hk hs => hs.keyed hk) run).live

end Engine

section

variable [F64 F] [Host F] {e₀ e : Engine F} {ls : List (Engine.Label F)}

end

end Billing
