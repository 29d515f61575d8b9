import Superkiro.Billing.Snapshot

namespace Billing

open F64 Except Host

-- The tables in memory, what is local to the process, the state last committed to disk, and the
-- ledger archives beside it.
structure Engine (F : Type) where
  tables               : Tables F
  activeReservations   : Table String Nat := ∅
  templateWaits        : Finset (String × String) := ∅
  compensations        : CompensationIndex := ∅
  persistent           : Bool := true
  masterKek            : Bool := false
  snapshotSequence     : Nat := 0
  lastSnapshotChecksum : Option String := none
  lastPersistenceError : Option String := none
  disk                 : Option (BillingSnapshot F) := none
  archiveFiles         : Table String (List (LedgerEntry F)) := ∅

-- What the environment does during one operation: what the system clock reads, and the error
-- with which writing the state or a ledger archive fails, if it does.
structure Io where
  clock        : Nat := 0
  fault        : Option String := none
  archiveFault : Option String := none

-- What an operation that was admitted goes on to do: answer without a change, or commit a
-- candidate and then publish it to memory.
inductive Txn (F α : Type)
  | answer (result : α)
  | write (candidate : Tables F) (publish : Tables F → Tables F) (result : α)

-- Migration of snapshots from before template invocations were kept.
def Tables.restoreTemplateInvocations (t : Tables F) : Tables F :=
  let s := t.archivedLedgerSummary
  let s :=
    if !s.templateInvocationsComplete && t.archivedLedgerReceipts.isEmpty then
      { s with usageInvocationIds := ∅, templateInvocationsComplete := true }
    else s
  let charged := (t.ledger.filter (·.isTemplateUsage)).filterMap (·.invocationId)
  { t with
    archivedLedgerSummary := { s with
      usageInvocationIds := s.usageInvocationIds ∪ charged.toFinset } }

-- Usage from this time on is guarded against a replay after a restart.
def Tables.horizon (t : Tables F) : Nat :=
  ((t.ledger.filter (·.kind = .usage)).map (·.tsSecs)).foldl max 0 -
    terminalReservationRetentionSecs

-- A record of a settled invocation, made from its ledger entry.
def CreditReservation.ofEntry (id : String) (e : LedgerEntry F) : CreditReservation F :=
  { CreditReservation.new ("res-" ++ id) e.cardId id 0 e.tsSecs 0 with state := .settled }

def Tables.recordSettled (horizon : Nat) (rs : Table String (CreditReservation F))
    (e : LedgerEntry F) : Table String (CreditReservation F) :=
  match e.invocationId with
  | some id => if e.kind = .usage ∧ horizon ≤ e.tsSecs then rs.orInsert id (.ofEntry id e) else rs
  | none    => rs

-- The records a restart keeps: settled ones from the ledger are added, and holds are dropped unless
-- their settlement is pending.
def Tables.recoveredReservations (t : Tables F) : Table String (CreditReservation F) :=
  (t.ledger.foldl (recordSettled t.horizon) t.reservations).retain fun id r =>
    r.state ≠ .held || decide (id ∈ t.pendingSettlements)

def Tables.heldIn (rs : Table String (CreditReservation F)) (cardId : String) : I64 :=
  .satSum 0
    ((rs.values.filter fun r => r.cardId = cardId && r.state = .held).map (·.reservedMicroCredits))

-- What an import makes of the tables it reads. Cards hold what their remaining reservations do.
def Tables.recovered (t : Tables F) : Tables F :=
  let t := t.restoreTemplateInvocations
  let rs := t.recoveredReservations
  { t with
    reservations := rs
    cards        := t.cards.mapValues fun id c => { c with creditReserved := heldIn rs id } }

section

variable [F64 F] [Host F]

def decryptKey (k : ProviderKey) : ProviderKey :=
  match k.apiKey.isEmpty, k.apiKeyEncrypted with
  | true, some ciphertext => { k with apiKey := (decrypt F ciphertext).getD "" }
  | _, _                  => k

-- The template invocations a candidate charges that memory doesn't know of.
def newTemplateIds (live candidate : Tables F) : List String :=
  (candidate.responseTemplateReceipts.filter fun r =>
    !live.responseTemplateReceipts.any (·.invocationId = r.invocationId)).map (·.invocationId)

def insertNew (ids : Finset String) (id : String) : Result (Finset String) :=
  if id ∈ ids then throw <| .duplicateInvocation id else pure (insert id ids)

def Tables.withTemplateIds (t : Tables F) (ids : Finset String) : Tables F :=
  { t with
    archivedLedgerSummary := { t.archivedLedgerSummary with
      usageInvocationIds          := ids
      templateInvocationsComplete := true } }

-- Commits new template invocations together with their debit.
def normalize (live candidate : Tables F) : Result (Tables F) :=
  if (newTemplateIds live candidate).isEmpty then pure candidate
  else do
    ensure (candidate.archivedLedgerSummary.templateInvocationsComplete ||
      candidate.archivedLedgerReceipts.isEmpty) (.invalidState
        "template invocation index requires verified archive migration on load")
    let ids ← (newTemplateIds live candidate).foldlM insertNew
      candidate.archivedLedgerSummary.usageInvocationIds
    let normalized := candidate.withTemplateIds ids
    validateTemplateInvocationCapacity normalized.archivedLedgerSummary
    return normalized

-- What is read back of a snapshot that was written: the keys of providers are only saved encrypted.
def BillingSnapshot.stored (s : BillingSnapshot F) : BillingSnapshot F :=
  { s with tables := { s.tables with
      providerKeys := s.tables.providerKeys.mapValues fun _ k => { k with apiKey := "" } } }

namespace Engine

variable (e : Engine F) (io : Io)

def persistenceReady : Bool := !e.persistent || e.lastPersistenceError.isNone

def snapshotOf (t : Tables F) : BillingSnapshot F where
  version          := 2
  timestamp        := io.clock
  sequence         := satAddU64 e.snapshotSequence 1
  previousChecksum := e.lastSnapshotChecksum
  tables           := t

def exportSnapshot : BillingSnapshot F where
  version          := 2
  timestamp        := io.clock
  sequence         := e.snapshotSequence
  previousChecksum := e.lastSnapshotChecksum
  tables           := e.tables

def tooLarge (bytes : Nat) : String :=
  "billing snapshot size " ++ toString bytes ++ " bytes exceeds maximum allowable limit of " ++
  toString maxSnapshotBytes ++
  " bytes; snapshot generation aborted to prevent unrecoverable state"

-- Whether a snapshot can be written. What the files go through is the subject of `Storage`.
def checkPersist (s : BillingSnapshot F) : Except String Unit := do
  refuse io.fault id
  ensure (s.tables.issuanceOrders.entries.isEmpty || e.masterKek)
    "persisting issuance replay secrets requires a master KEK"
  ensure (fileBytes s ≤ maxSnapshotBytes) (tooLarge (fileBytes s))

-- What memory holds after a commit: what is published, with the template invocations of the
-- candidate that was saved.
def published (candidate normalized : Tables F) (publish : Tables F → Tables F) : Tables F :=
  if (newTemplateIds e.tables candidate).isEmpty then publish e.tables
  else
    let t := publish e.tables
    { t with
      archivedLedgerSummary := { t.archivedLedgerSummary with
        usageInvocationIds := normalized.archivedLedgerSummary.usageInvocationIds
        templateInvocationsComplete :=
          normalized.archivedLedgerSummary.templateInvocationsComplete } }

def commit (candidate : Tables F) (publish : Tables F → Tables F) : Result Unit × Engine F :=
  match normalize e.tables candidate with
  | .error err     => (.error err, e)
  | .ok normalized =>
    let tables := e.published candidate normalized publish
    if e.persistent then
      let s := e.snapshotOf io normalized
      match e.checkPersist io s with
      | .error m => (.error (.persistence m), { e with lastPersistenceError := some m })
      | .ok _    => (.ok (), { e with
          tables               := tables
          disk                 := some s
          snapshotSequence     := s.sequence
          lastSnapshotChecksum := some (checksum s)
          lastPersistenceError := none })
    else (.ok (), { e with tables := tables, lastPersistenceError := none })

def transact (txn : Result (Txn F α)) : Result α × Engine F :=
  match txn with
  | .error err             => (.error err, e)
  | .ok (.answer a)        => (.ok a, e)
  | .ok (.write c pub a) =>
    match e.commit io c pub with
    | (.ok _, e')      => (.ok a, e')
    | (.error err, e') => (.error err, e')

-- A new process that imports a snapshot.
def importSnapshot (s : BillingSnapshot F) : Engine F :=
  let t := s.tables.recovered
  { tables := { t with
      providerKeys :=
        if e.masterKek then t.providerKeys.mapValues fun _ k => decryptKey (F := F) k
        else t.providerKeys }
    compensations := .build (parseJson F) <|
      s.tables.ledger ++ s.tables.archivedLedgerSummary.adjustments.values
    persistent           := e.persistent
    masterKek            := e.masterKek
    snapshotSequence     := s.sequence
    lastSnapshotChecksum := s.previousChecksum
    disk                 := e.disk
    archiveFiles         := e.archiveFiles }

def restart : Engine F := e.importSnapshot (e.exportSnapshot io)

end Engine
end
end Billing
