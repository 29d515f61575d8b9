import Superkiro.Lib.Run
import Superkiro.Billing.Commercial
import Superkiro.Billing.Devices
import Superkiro.Billing.Waits

namespace Billing

open F64 Host

-- What can be asked of the engine.
inductive Op (F : Type)
  | reserve (cardId id : String) (p : ReservationEstimateParams F) (now ttl : Nat)
  | extendReservation (id : String) (amount : I64) (now : Nat)
  | settle (id : String) (tokens : UsageTokens) (exposed provider target : String) (now : Nat)
  | retryPendingSettlement (id : String)
  | release (id : String)
  | runJanitor (now : Nat)
  | chargeResponseTemplate (revision ruleId modelId : String) (r : ResponseTemplateReceipt)
      (now : Nat)
  | publishResponseTemplates (u : ResponseTemplateUpdate) (now : Nat)
  | freezeCard (cardId operator reason : String) (now : Nat)
  | unfreezeCard (cardId operator reason : String) (now : Nat)
  | banCard (cardId operator reason : String) (now : Nat)
  | unbanCard (cardId operator reason : String) (now : Nat)
  | voidCard (cardId operator reason : String) (now : Nat) (unactivatedOnly : Bool)
  | changeCardGroup (cardId groupId operator reason : String) (now : Nat)
  | extendValidity (cardIds : List String) (x : ValidityExtension) (operator reason : String)
      (now : Nat)
  | adjustCardBalance (a : BalanceAdjustment)
  | redeemTopup (cardId code : String) (now : Nat) (operator : String)
  | renewWithCard (cardId code : String) (now : Nat)
  | upgradeCard (u : CardUpgrade)
  | archiveLedger (before : Nat)
  | publishCommercialConfig (u : CommercialUpdate F) (now : Nat)
  | activateCard (cardId : String) (now duration : Nat)
  | activateCardWithDevice (cardId : String) (now duration : Nat) (device : Option String)
  | bindDevice (cardId device : String)
  | unbindDevice (cardId device : String)
  | adminUnbindDevice (cardId device operator reason : String) (now : Nat)
  | resetRebinds (cardId operator reason : String) (now : Nat)
  | rekeyCard (cardId : String) (new : NewCode) (operator reason : String) (now : Nat)
  | setCardCodeHash (cardId codeHash : String)
  | revokeTokens (cardId : String)
  | consumeRefreshToken (jti : String) (expires now : Nat)
  | rotateRefresh (cardId : String) (presented : Nat) (jti : String) (expires now grace : Nat)
  | setCardArchived (cardId : String) (archived : Bool) (operator reason : String) (now : Nat)
  | beginResponseTemplateWait (revision ruleId modelId cardId id : String) (now : Nat)
  | dropWaitSlot (cardId id : String)
  -- Requests are protected from the janitor while they are alive.
  | protect (active : Table String Nat)
  -- A restart with what memory held, and one with what was last committed.
  | restart
  | reload

-- The time an operation is asked at.
def Op.time? : Op F → Option Nat
  | reserve _ _ _ now _                  => some now
  | extendReservation _ _ now            => some now
  | settle _ _ _ _ _ now                 => some now
  | runJanitor now                       => some now
  | chargeResponseTemplate _ _ _ _ now   => some now
  | publishResponseTemplates _ now       => some now
  | freezeCard _ _ _ now                 => some now
  | unfreezeCard _ _ _ now               => some now
  | banCard _ _ _ now                    => some now
  | unbanCard _ _ _ now                  => some now
  | voidCard _ _ _ now _                 => some now
  | changeCardGroup _ _ _ _ now          => some now
  | extendValidity _ _ _ _ now           => some now
  | adjustCardBalance a                  => some a.nowSecs
  | redeemTopup _ _ now _                => some now
  | renewWithCard _ _ now                => some now
  | upgradeCard u                        => some u.nowSecs
  | publishCommercialConfig _ now        => some now
  | activateCard _ now _                 => some now
  | activateCardWithDevice _ now _ _     => some now
  | adminUnbindDevice _ _ _ _ now        => some now
  | resetRebinds _ _ _ now               => some now
  | rekeyCard _ _ _ _ now                => some now
  | consumeRefreshToken _ _ now          => some now
  | rotateRefresh _ _ _ _ now _          => some now
  | setCardArchived _ _ _ _ now          => some now
  | beginResponseTemplateWait _ _ _ _ _ now => some now
  | retryPendingSettlement _ | release _ | archiveLedger _ | bindDevice _ _ | unbindDevice _ _
  | setCardCodeHash _ _ | revokeTokens _ | dropWaitSlot _ _ | protect _ | restart | reload => none

namespace Engine

variable [F64 F] [Host F] (e : Engine F) (io : Io)

-- The archives whose files are as their receipts say, in the order they were made.
def archives : List (List (LedgerEntry F)) :=
  e.tables.archivedLedgerReceipts.filterMap fun r =>
    (e.archiveFiles.lookup r.archiveFile).filter (archiveChecksum · = r.sha256Checksum)

def freezeCard (cardId operator reason : String) (now : Nat) : Result Card × Engine F :=
  e.transact io (e.tables.freezeCard cardId operator reason now)

def unfreezeCard (cardId operator reason : String) (now : Nat) : Result Card × Engine F :=
  e.transact io (e.tables.unfreezeCard cardId operator reason now)

def banCard (cardId operator reason : String) (now : Nat) : Result Card × Engine F :=
  e.transact io (e.tables.banCard cardId operator reason now)

def unbanCard (cardId operator reason : String) (now : Nat) : Result Card × Engine F :=
  e.transact io (e.tables.unbanCard cardId operator reason now)

def voidCard (cardId operator reason : String) (now : Nat) (unactivatedOnly : Bool) :
    Result Card × Engine F :=
  e.transact io (e.tables.voidCardInner cardId operator reason now unactivatedOnly)

def changeCardGroup (cardId groupId operator reason : String) (now : Nat) :
    Result Card × Engine F :=
  e.transact io (e.tables.changeCardGroup cardId groupId operator reason now)

def extendValidity (cardIds : List String) (x : ValidityExtension) (operator reason : String)
    (now : Nat) : Result (List Card) × Engine F :=
  e.transact io (e.tables.extendValidity cardIds x operator reason now)

-- An adjustment that is committed also counts towards the compensations of its requests.
def adjustCardBalance (a : BalanceAdjustment) : Result (LedgerEntry F) × Engine F :=
  let txn := e.tables.adjustCardBalance (parseJson F) e.compensations e.archives a
  match txn, e.transact io txn with
  | .ok (.write ..), (.ok entry, e') =>
    (.ok entry, { e' with compensations := e'.compensations.add (parseJson F) entry })
  | _, r => r

def redeemTopup (cardId code : String) (now : Nat) (operator : String) :
    Result (LedgerEntry F) × Engine F :=
  e.transact io (e.tables.redeemTopup (hashCardCode F) cardId code now operator)

def renewWithCard (cardId code : String) (now : Nat) : Result (LedgerEntry F) × Engine F :=
  e.transact io (e.tables.renewWithCard (hashCardCode F) cardId code now)

def upgradeCard (u : CardUpgrade) : Result Card × Engine F :=
  e.transact io (e.tables.upgradeCard (parseJson F) u)

def activateCard (cardId : String) (now duration : Nat) : Result Card × Engine F :=
  e.transact io (e.tables.activateCard cardId now duration)

def activateCardWithDevice (cardId : String) (now duration : Nat) (device : Option String) :
    Result Card × Engine F :=
  e.transact io (e.tables.activateCardWithDevice cardId now duration device)

def bindDevice (cardId device : String) : Result Unit × Engine F :=
  e.transact io (e.tables.bindDevice cardId device)

-- A customer unbinds by the system's clock.
def unbindDevice (cardId device : String) : Result Unit × Engine F :=
  e.transact io (e.tables.unbindDevice cardId device io.clock)

def adminUnbindDevice (cardId device operator reason : String) (now : Nat) :
    Result Card × Engine F :=
  e.transact io (e.tables.adminUnbindDevice cardId device operator reason now)

def resetRebinds (cardId operator reason : String) (now : Nat) : Result Card × Engine F :=
  e.transact io (e.tables.resetRebinds cardId operator reason now)

def rekeyCard (cardId : String) (new : NewCode) (operator reason : String) (now : Nat) :
    Result Card × Engine F :=
  e.transact io (e.tables.rekeyCard (hashCardCode F) cardId new operator reason now)

def setCardCodeHash (cardId codeHash : String) : Result Card × Engine F :=
  e.transact io (e.tables.setCardCodeHash cardId codeHash)

def revokeTokens (cardId : String) : Result Nat × Engine F :=
  e.transact io (e.tables.revokeTokens cardId)

def consumeRefreshToken (jti : String) (expires now : Nat) : Result Unit × Engine F :=
  e.transact io (e.tables.consumeRefreshToken jti expires now)

def rotateRefresh (cardId : String) (presented : Nat) (jti : String) (expires now grace : Nat) :
    Result RefreshRotation × Engine F :=
  e.transact io (e.tables.rotateRefresh cardId presented jti expires now grace)

def setCardArchived (cardId : String) (archived : Bool) (operator reason : String) (now : Nat) :
    Result Card × Engine F :=
  e.transact io (e.tables.setCardArchived cardId archived operator reason now)

def archiveId : String :=
  "arc-" ++ toString io.clock ++ "-" ++ toString e.tables.archivedLedgerReceipts.length ++ "-" ++
  toString (satAddU64 e.snapshotSequence 1)

def archiveReceipt (before : Nat) : ArchivedLedgerReceipt where
  archiveId           := e.archiveId io
  archiveFile         := "ledger_archive_" ++ e.archiveId io ++ ".json"
  drainedEntriesCount := (e.tables.archived before).length
  sha256Checksum      := archiveChecksum (e.tables.archived before)
  beforeTsSecs        := before
  createdAtSecs       := io.clock

-- The archive is written before the state that leaves its entries out. It stays when that fails.
def archiveLedger (before : Nat) : Result ArchivedLedgerReceipt × Engine F :=
  let receipt := e.archiveReceipt io before
  match e.tables.archiveLedger before receipt, io.archiveFault with
  | .ok txn, none    =>
    let files := e.archiveFiles.insert receipt.archiveFile (e.tables.archived before)
    { e with archiveFiles := files }.transact io (.ok txn)
  | .ok _, some m    => (.error (.persistence ("Failed to write archive file: " ++ m)), e)
  | .error err, _    => (.error err, e)

-- A restart that loads the state last committed.
def reload : Engine F :=
  match e.disk with
  | some s => { e.importSnapshot s.stored with lastSnapshotChecksum := some (checksum s) }
  | none   => e

def exec : Op F → Engine F
  | .reserve cardId id p now ttl            => (e.reserve cardId id p now ttl).2
  | .extendReservation id amount now        => (e.extendReservation io id amount now).2
  | .settle id tokens exposed provider target now =>
    (e.settle io id tokens exposed provider target now).2
  | .retryPendingSettlement id              => (e.retryPendingSettlement io id).2
  | .release id                             => (e.release id).2
  | .runJanitor now                         => (e.runJanitor io now).2
  | .chargeResponseTemplate revision ruleId modelId r now =>
    (e.chargeResponseTemplate io revision ruleId modelId r now).2
  | .publishResponseTemplates u now         => (e.publishResponseTemplates io u now).2
  | .freezeCard cardId operator reason now  => (e.freezeCard io cardId operator reason now).2
  | .unfreezeCard cardId operator reason now => (e.unfreezeCard io cardId operator reason now).2
  | .banCard cardId operator reason now     => (e.banCard io cardId operator reason now).2
  | .unbanCard cardId operator reason now   => (e.unbanCard io cardId operator reason now).2
  | .voidCard cardId operator reason now unactivatedOnly =>
    (e.voidCard io cardId operator reason now unactivatedOnly).2
  | .changeCardGroup cardId groupId operator reason now =>
    (e.changeCardGroup io cardId groupId operator reason now).2
  | .extendValidity cardIds x operator reason now =>
    (e.extendValidity io cardIds x operator reason now).2
  | .adjustCardBalance a                    => (e.adjustCardBalance io a).2
  | .redeemTopup cardId code now operator   => (e.redeemTopup io cardId code now operator).2
  | .renewWithCard cardId code now          => (e.renewWithCard io cardId code now).2
  | .upgradeCard u                          => (e.upgradeCard io u).2
  | .archiveLedger before                   => (e.archiveLedger io before).2
  | .publishCommercialConfig u now          => (e.publishCommercialConfig io u now).2
  | .activateCard cardId now duration       => (e.activateCard io cardId now duration).2
  | .activateCardWithDevice cardId now duration device =>
    (e.activateCardWithDevice io cardId now duration device).2
  | .bindDevice cardId device               => (e.bindDevice io cardId device).2
  | .unbindDevice cardId device             => (e.unbindDevice io cardId device).2
  | .adminUnbindDevice cardId device operator reason now =>
    (e.adminUnbindDevice io cardId device operator reason now).2
  | .resetRebinds cardId operator reason now => (e.resetRebinds io cardId operator reason now).2
  | .rekeyCard cardId new operator reason now => (e.rekeyCard io cardId new operator reason now).2
  | .setCardCodeHash cardId codeHash        => (e.setCardCodeHash io cardId codeHash).2
  | .revokeTokens cardId                    => (e.revokeTokens io cardId).2
  | .consumeRefreshToken jti expires now    => (e.consumeRefreshToken io jti expires now).2
  | .rotateRefresh cardId presented jti expires now grace =>
    (e.rotateRefresh io cardId presented jti expires now grace).2
  | .setCardArchived cardId archived operator reason now =>
    (e.setCardArchived io cardId archived operator reason now).2
  | .beginResponseTemplateWait revision ruleId modelId cardId id now =>
    (e.beginResponseTemplateWait revision ruleId modelId cardId id now).2
  | .dropWaitSlot cardId id                 => e.dropWaitSlot cardId id
  | .protect active                         => { e with activeReservations := active }
  | .restart                                => e.restart io
  | .reload                                 => e.reload

-- One operation, in one environment.
structure Label (F : Type) where
  op : Op F
  io : Io := {}

def Step (e : Engine F) (l : Label F) (e' : Engine F) : Prop := e' = e.exec l.io l.op

def execAll (e : Engine F) : List (Label F) → Engine F
  | []      => e
  | l :: ls => (e.exec l.io l.op).execAll ls

-- The engine has one run for each sequence of operations.
theorem run_execAll (ls : List (Label F)) : Run Step e ls (e.execAll ls) := by
  induction ls generalizing e
  case nil => exact .nil
  case cons hi => exact .cons rfl (hi _)

end Engine
end Billing
