import Superkiro.Lib.I64
import Superkiro.Lib.Text
import Superkiro.Lib.Fallible

namespace Billing

def microCreditsPerCredit : Int := 1000000

-- Adding and subtracting times and counters stops at the ends of an unsigned 64-bit integer.
def u64Max : Nat := 18446744073709551615

def satAddU64 (a b : Nat) : Nat := min (a + b) u64Max

-- The plan a card was issued from, as it was then.
structure IssuedPlan where
  id             : String
  name           : String
  points         : I64
  priceMicroCny  : I64
  paidMicroCny   : Option I64
  validityDays   : Nat
  maxDevices     : Nat
  concurrency    : Nat
  kiroPlanType   : String
  deriving DecidableEq

inductive CardStatus
  | unactivated
  | active
  | frozen
  | banned
  | expired
  | voided
  deriving DecidableEq

def CardStatus.debug : CardStatus → String
  | unactivated => "Unactivated"
  | active      => "Active"
  | frozen      => "Frozen"
  | banned      => "Banned"
  | expired     => "Expired"
  | voided      => "Voided"

def CardStatus.encoded : CardStatus → String
  | unactivated => "unactivated"
  | active      => "active"
  | frozen      => "frozen"
  | banned      => "banned"
  | expired     => "expired"
  | voided      => "voided"

inductive CardError
  | notActive (status : CardStatus)
  | expired
  | insufficientCredit (available needed : I64)
  | generationFailed
  | multipleDevices
  | invalidDeviceLimit
  deriving DecidableEq

structure Card where
  id                     : String
  codeHash               : String := ""
  codeEncrypted          : Option String := none
  templateId             : Option String := none
  activationDurationSecs : Option Nat := none
  groupId                : String
  creditTotal            : I64
  issuedCredits          : Option I64
  plan                   : Option IssuedPlan := none
  creditUsed             : I64 := 0
  creditReserved         : I64 := 0
  status                 : CardStatus := .unactivated
  frozenFrom             : Option CardStatus := none
  archivedAt             : Option Nat := none
  activatedAt            : Option Nat := none
  validUntil             : Option Nat := none
  maxDevices             : Nat := 1
  boundDevices           : List String := []
  rebindCount            : Nat := 0
  maxRebinds             : Nat := 5
  lastRebindAt           : Option Nat := none
  rebindCooldownSecs     : Nat := 86400
  maxConcurrency         : Nat := 5
  dailyCreditLimit       : Option I64 := none
  monthlyCreditLimit     : Option I64 := none
  tokenVersion           : Nat := 1
  refreshVersion         : Nat := 1
  refreshRotatedAt       : Option Nat := none
  note                   : Option String := none
  createdAt              : Nat := 0
  deriving DecidableEq

namespace Card

def new (id groupId : String) (creditTotal : I64) : Card where
  id            := id
  groupId       := groupId
  creditTotal   := creditTotal
  issuedCredits := some creditTotal

-- What is neither spent nor held.
def availableCredits (c : Card) : I64 :=
  (c.creditTotal.satSub (c.creditUsed.satAdd c.creditReserved)).max0

def checkDevicePolicy (c : Card) : Except CardError Unit :=
  .ensure (c.boundDevices.length ≤ 1) .multipleDevices

-- A card with a hold returned to it.
def refunded (c : Card) (hold : I64) : Card :=
  { c with creditReserved := c.creditReserved.satSub hold }

-- Unpaid consumption, excluding holds.
def outstandingDebt (c : Card) : I64 := (c.creditUsed.satSub c.creditTotal).max0

-- Whether an expiry has been reached.
def isPast (validUntil : Option Nat) (now : Nat) : Bool := validUntil.any (· ≤ now)

def checkActive (c : Card) (now : Nat) : Except CardError Unit := do
  c.checkDevicePolicy
  .ensure (c.status = .active) (.notActive c.status)
  .ensure (!isPast c.validUntil now) .expired

def checkCanReserve (c : Card) (needed : I64) (now : Nat) : Except CardError Unit := do
  c.checkActive now
  .ensure (needed ≤ c.availableCredits) (.insufficientCredit c.availableCredits needed)

end Card
end Billing
