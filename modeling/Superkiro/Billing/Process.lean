import Superkiro.Billing.Agreement

namespace Billing

open F64 Except Host

-- What of an engine is local to its process, besides the tables.
structure Process where
  activeReservations : Table String Nat
  templateWaits      : Finset (String × String)
  compensations      : CompensationIndex
  persistent         : Bool
  masterKek          : Bool

-- Operations that change what is local to the process.
def Op.isLocal : Op F → Bool
  | .adjustCardBalance _ | .beginResponseTemplateWait .. | .dropWaitSlot .. | .protect _ | .restart
  | .reload => true
  | _       => false

namespace Engine

def process (e : Engine F) : Process :=
  ⟨e.activeReservations, e.templateWaits, e.compensations, e.persistent, e.masterKek⟩

variable [F64 F] [Host F] {e : Engine F} {io : Io} {op : Op F} {id : String}

omit [F64 F] in
theorem commit_process {pub : Tables F → Tables F} : (e.commit io c pub).2.process = e.process := by
  simp only [commit]
  split
  case h_1 => rfl
  case h_2 =>
    split
    case isTrue => split <;> rfl
    case isFalse => rfl

omit [F64 F] in
theorem transact_process {txn : Result (Txn F α)} : (e.transact io txn).2.process = e.process := by
  cases txn
  case error => rfl
  case ok txn =>
    cases txn
    case answer => rfl
    case write c pub a =>
      have h : (e.commit io c pub).2.process = _ := commit_process
      simp only [transact]
      generalize e.commit io c pub = r at h
      obtain ⟨_ | _, e'⟩ := r <;> exact h

theorem settle_process :
    (e.settle io id tokens exposed provider target now).2.process = e.process := by
  simp only [settle]
  split
  case h_2 =>
    split
    case isTrue => exact transact_process
    case isFalse => rfl
  case h_1 =>
    simp only [settleNew]
    split
    case h_1 => rfl
    case h_2 p _ =>
      have h : (e.commit io (e.tables.settleCandidate id p).1
        (e.tables.settleCandidate id p).1.publishSettlement).2.process = _ := commit_process
      generalize e.commit io _ _ = r at h
      obtain ⟨_ | _, e'⟩ := r <;> exact h

omit [F64 F] in
theorem archiveLedger_process : (e.archiveLedger io before).2.process = e.process := by
  simp only [archiveLedger]
  split
  case h_1 => exact transact_process
  case h_2 => rfl
  case h_3 => rfl

theorem runJanitor_process : (e.runJanitor io now).2.process = e.process := by
  have h : (e.transact io (e.tables.runJanitor e.activeReservations now)).2.process = _ :=
    transact_process
  simp only [runJanitor]
  split
  case h_1 he | h_2 he =>
    rw [he] at h
    exact h

theorem exec_process (hop : ¬op.isLocal) : (e.exec io op).process = e.process := by
  cases op <;> simp only [exec, extendReservation, retryPendingSettlement, chargeResponseTemplate,
    publishResponseTemplates, freezeCard, unfreezeCard, banCard, unbanCard, voidCard,
    changeCardGroup, extendValidity, redeemTopup, renewWithCard, upgradeCard,
    publishCommercialConfig, activateCard, activateCardWithDevice, bindDevice, unbindDevice,
    adminUnbindDevice, resetRebinds, rekeyCard, setCardCodeHash, revokeTokens, consumeRefreshToken,
    rotateRefresh, setCardArchived, transact_process]
  case adjustCardBalance | beginResponseTemplateWait | dropWaitSlot | protect | restart | reload =>
    exact absurd rfl hop
  case reserve =>
    simp only [reserve]
    split <;> rfl
  case settle => exact settle_process
  case release =>
    simp only [release]
    split
    case isTrue => rfl
    case isFalse =>
      split
      case h_1 => rfl
      case h_2 => split <;> rfl
  case runJanitor => exact runJanitor_process
  case archiveLedger => exact archiveLedger_process

omit [F64 F] in
theorem adjustCardBalance_process (a : BalanceAdjustment) :
    (e.adjustCardBalance io a).2.process =
      { e.process with compensations := (e.adjustCardBalance io a).2.compensations } := by
  have h : (e.transact io (e.tables.adjustCardBalance (parseJson F) e.compensations e.archives
      a)).2.process = _ := transact_process
  simp only [adjustCardBalance]
  split
  case h_1 he =>
    rw [he] at h
    simp only [process, Process.mk.injEq] at h ⊢
    simp [h]
  case h_2 =>
    simp only [process, Process.mk.injEq] at h ⊢
    simp [h]

theorem exec_persistent : (e.exec io op).persistent = e.persistent := by
  by_cases hop : op.isLocal
  case neg => exact congrArg Process.persistent (exec_process hop)
  case pos =>
    cases op
    case adjustCardBalance a => exact congrArg Process.persistent (adjustCardBalance_process a)
    case beginResponseTemplateWait =>
      simp only [exec, beginResponseTemplateWait]
      split <;> rfl
    case dropWaitSlot | protect | restart => rfl
    case reload =>
      simp only [exec, reload]
      split <;> rfl
    all_goals cases hop

end Engine
end Billing
