import Superkiro.Billing.Compensation

namespace Billing

inductive BillingError
  | groupIssuanceDisabled
  | cardNotFound (id : String)
  | card (e : CardError)
  | reservationNotFound (id : String)
  | duplicateInvocation (id : String)
  | reservationAlreadyReleased (id : String)
  | deviceAlreadyBound
  | rebindLimitExceeded (current max : Nat)
  | rebindCooldown (remainingSecs : Nat)
  | deviceNotFound (cardId device : String)
  | invalidOrRedeemedTopupCode
  | cannotVoidActivatedCard (cardId : String) (currentStatus : CardStatus)
  | invalidAdjustment (message : String)
  | concurrencyLimitExceeded (current max : Nat)
  | dailyLimitExceeded (limit current held needed : I64)
  | monthlyLimitExceeded (limit current held needed : I64)
  | settlementExceedsReservation (charge reserved : I64)
  | settlementExceedsBalance (charge available : I64)
  | missingUsage
  | modelNotPriced (model : String)
  | invalidState (message : String)
  | persistence (message : String)
  | requestNotFound (id : String)
  | compensationRefused (message : String)
  | compensation (refusal : CompensationRefusal)
  deriving DecidableEq

def cardErrorMessage : CardError → String
  | .notActive status => "Card is not active: status is " ++ status.debug
  | .expired => "Card validity period has expired"
  | .insufficientCredit available needed =>
    "Insufficient credit: available " ++ toString available.val ++ " micro-credits, needed " ++
    toString needed.val
  | .generationFailed => "Card code generation failed"
  | .multipleDevices =>
    "Legacy multiple-device bindings require explicit administrator resolution"
  | .invalidDeviceLimit => "New card issuance requires max_devices=1"

def limitMessage (period used : String) (limit current held needed : I64) : String :=
  period ++ " credit limit exceeded (limit: " ++ toString limit.val ++ ", used " ++ used ++ ": " ++
  toString current.val ++ ", of it held: " ++ toString held.val ++ ", needed: " ++
  toString needed.val ++ ")"

def BillingError.message : BillingError → String
  | groupIssuanceDisabled => "Group does not allow new card issuance"
  | cardNotFound id => "Card " ++ id ++ " not found"
  | card e => "Card error: " ++ cardErrorMessage e
  | reservationNotFound id => "Reservation with invocation ID '" ++ id ++ "' not found"
  | duplicateInvocation id => "Duplicate invocation ID '" ++ id ++ "': already reserved or settled"
  | reservationAlreadyReleased id => "Reservation '" ++ id ++ "' has already been released"
  | deviceAlreadyBound =>
    "Card is already bound to another device; unbind it on the portal before logging in on a new " ++
    "device"
  | rebindLimitExceeded current max =>
    "Device rebind limit reached (" ++ toString current ++ "/" ++ toString max ++ ")"
  | rebindCooldown remainingSecs =>
    "Device rebind in cooldown: remaining " ++ toString remainingSecs ++ "s"
  | deviceNotFound cardId device => "Device " ++ device ++ " not found for card " ++ cardId
  | invalidOrRedeemedTopupCode => "Top-up code is invalid or already redeemed"
  | cannotVoidActivatedCard cardId currentStatus =>
    "Cannot void card " ++ cardId ++ ": only unactivated cards can be voided (current status: " ++
    currentStatus.debug ++ ")"
  | invalidAdjustment message => "Invalid balance adjustment: " ++ message
  | concurrencyLimitExceeded current max =>
    "Card concurrency limit exceeded (" ++ toString current ++ "/" ++ toString max ++ ")"
  | dailyLimitExceeded limit current held needed =>
    limitMessage "Daily" "today" limit current held needed
  | monthlyLimitExceeded limit current held needed =>
    limitMessage "Monthly" "in 30 days" limit current held needed
  | settlementExceedsReservation charge reserved =>
    "Settlement charge " ++ toString charge.val ++ " exceeds the reservation " ++
    toString reserved.val
  | settlementExceedsBalance charge available =>
    "Settlement charge " ++ toString charge.val ++ " exceeds the card's remaining balance " ++
    toString available.val
  | missingUsage => "Provider returned no billable usage for a reserved invocation"
  | modelNotPriced model => "No price is published for model '" ++ model ++ "'"
  | invalidState message => "Invalid billing state: " ++ message
  | persistence message => "Billing persistence failed: " ++ message
  | requestNotFound id => "Request " ++ id ++ " was not found"
  | compensationRefused message => message
  | compensation refusal => refusal.message

-- The outcome of something that can be refused.
abbrev Result (α : Type) := Except BillingError α

-- A check of a card, as a check of billing.
def liftCard (r : Except CardError α) : Result α := r.mapError .card

theorem liftCard_eq_ok {r : Except CardError α} : liftCard r = .ok a ↔ r = .ok a := by
  rw [liftCard, Except.mapError_eq_ok]

end Billing
