import Superkiro.Billing.Traces
import Superkiro.Lib.Folds

namespace Billing

variable {F : Type}

def hourSecs : Nat := 3600

structure ActivityWindow where
  requests                      : Nat := 0
  succeeded                     : Nat := 0
  failed                        : Nat := 0
  clientAborted                 : Nat := 0
  refused                       : Nat := 0
  interruptedCharged            : Nat := 0
  interruptedChargedMicroCredits : I64 := 0
  creditsCharged                : I64 := 0
  inputTokens                   : Nat := 0
  outputTokens                  : Nat := 0
  providerCostMicroCny          : I64 := 0
  activeCards                   : Nat := 0
  timedRequests                 : Nat := 0
  ttftMedianMs                  : Option Nat := none
  ttftP90Ms                     : Option Nat := none

structure ProviderActivity where
  providerId                     : String
  requests                       : Nat := 0
  failed                         : Nat := 0
  refused                        : Nat := 0
  interruptedCharged             : Nat := 0
  interruptedChargedMicroCredits : I64 := 0
  ttftMedianMs                   : Option Nat := none

structure ActivityHour where
  startSecs                      : Nat
  requests                       : Nat := 0
  failed                         : Nat := 0
  refused                        : Nat := 0
  interruptedCharged             : Nat := 0
  interruptedChargedMicroCredits : I64 := 0

structure AttemptWindow where
  attempts                       : Nat := 0
  failures                       : Nat := 0
  refused                        : Nat := 0
  takenOver                      : Nat := 0
  interruptedCharged             : Nat := 0
  interruptedChargedMicroCredits : I64 := 0
  failuresByKind                 : Table String Nat := ∅

structure ModelHealthWindow where
  requests                       : Nat := 0
  failures                       : Nat := 0
  refused                        : Nat := 0
  interruptedCharged             : Nat := 0
  interruptedChargedMicroCredits : I64 := 0
  lastFailureAt                  : Option Nat := none
  topFailureKind                 : Option String := none
  failuresByKind                 : Table String Nat := ∅

-- Something for each of the last hour, 24 hours and 7 days.
structure Periods (W : Type) where
  last1h  : W
  last24h : W
  last7d  : W

structure ProviderAttempts extends Periods AttemptWindow where
  providerId : String

structure KeyAttempts extends Periods AttemptWindow where
  keyId      : String
  providerId : String

structure ModelHealth extends Periods ModelHealthWindow where
  model : String

structure ModelUsage where
  model    : String
  requests : Nat
  cards    : Nat

structure Activity where
  last24h             : ActivityWindow
  last7d              : ActivityWindow
  hourly              : List ActivityHour
  providers           : List ProviderActivity
  tracesCoverFromSecs : Option Nat
  providerAttempts    : List ProviderAttempts
  keyAttempts         : List KeyAttempts
  modelHealth         : List ModelHealth
  modelUsage7d        : List ModelUsage

-- Nearest rank, over timings in ascending order.
def percentile (sorted : List Nat) (percent : Nat) : Option Nat :=
  sorted[max ((sorted.length * percent + 99) / 100) 1 - 1]?

-- The busiest first, and in the order of their names where they're as busy as each other.
def busiestFirst {α : Type} (busy : α → Nat) (name : α → String) (l : List α) : List α :=
  l.insertionSort fun a b => busy b < busy a ∨ (busy a = busy b ∧ name a ≤ name b)

namespace ActivityWindow

variable (w : ActivityWindow)

def interrupted (tr : RequestTrace F) : ActivityWindow :=
  if tr.interruptedCharged then
    { w with
      interruptedCharged             := w.interruptedCharged + tr.occurrences
      interruptedChargedMicroCredits :=
        w.interruptedChargedMicroCredits.satAdd tr.creditsCharged }
  else w

def count (tr : RequestTrace F) : ActivityWindow :=
  let times := tr.occurrences
  if tr.refusedForCard then { w with refused := w.refused + times }
  else
    let w := w.interrupted tr
    match tr.status with
    | .success       =>
      { w with succeeded := w.succeeded + times, requests := w.requests + times }
    -- Cut short and charged: counted as interrupted, not as a failure.
    | .error         =>
      if tr.interruptedCharged then { w with requests := w.requests + times }
      else { w with failed := w.failed + times, requests := w.requests + times }
    | .clientAborted =>
      { w with clientAborted := w.clientAborted + times, requests := w.requests + times }
    | .inProgress    => w

def timed (ttft : List Nat) : ActivityWindow :=
  let sorted := ttft.insertionSort (· ≤ ·)
  { w with
    timedRequests := sorted.length
    ttftMedianMs  := percentile sorted 50
    ttftP90Ms     := percentile sorted 90 }

-- What was billed in the window.
def bill (entries : List (LedgerEntry F)) : ActivityWindow :=
  { entries.foldl (fun w e => { w with
      creditsCharged       := w.creditsCharged.satAdd e.creditsCharged
      inputTokens          := satAddU64 w.inputTokens e.inputTokens
      outputTokens         := satAddU64 w.outputTokens e.outputTokens
      providerCostMicroCny := w.providerCostMicroCny.satAdd e.providerCostMicroCny }) w with
    activeCards := (entries.map (·.cardId)).dedup.length }

end ActivityWindow

namespace RequestTrace

variable (tr : RequestTrace F)

def finished : Bool := tr.status ≠ .inProgress

-- The failures a trace stands for, as providers and hours count them.
def failures : Nat := if tr.status = .error && !tr.interruptedCharged then tr.occurrences else 0

end RequestTrace

def ProviderActivity.count (p : ProviderActivity) (tr : RequestTrace F) : ProviderActivity :=
  let p :=
    if tr.refusedForCard then { p with refused := p.refused + tr.occurrences }
    else { p with requests := p.requests + tr.occurrences, failed := p.failed + tr.failures }
  if tr.interruptedCharged then
    { p with
      interruptedCharged             := p.interruptedCharged + tr.occurrences
      interruptedChargedMicroCredits :=
        p.interruptedChargedMicroCredits.satAdd tr.creditsCharged }
  else p

def ActivityHour.count (h : ActivityHour) (tr : RequestTrace F) : ActivityHour :=
  let h :=
    if tr.refusedForCard then { h with refused := h.refused + tr.occurrences }
    else { h with requests := h.requests + tr.occurrences, failed := h.failed + tr.failures }
  if tr.interruptedCharged then
    { h with
      interruptedCharged             := h.interruptedCharged + tr.occurrences
      interruptedChargedMicroCredits :=
        h.interruptedChargedMicroCredits.satAdd tr.creditsCharged }
  else h

-- What's counted of the traces so far.
structure Counting where
  last24h   : ActivityWindow := {}
  last7d    : ActivityWindow := {}
  dayTtft   : List Nat := []
  weekTtft  : List Nat := []
  providers : Table String (ProviderActivity × List Nat) := ∅
  hourly    : List ActivityHour

def last24hStart (now : Nat) : Nat := now - 24 * hourSecs

def weekStart (now : Nat) : Nat := now - 7 * 24 * hourSecs

def firstHour (now : Nat) : Nat := (now / hourSecs - 23) * hourSecs

namespace Counting

variable (c : Counting)

def countWeek (tr : RequestTrace F) : Counting :=
  { c with last7d := c.last7d.count tr, weekTtft := c.weekTtft ++ tr.ttftMs.toList }

def countProvider (tr : RequestTrace F) : Table String (ProviderActivity × List Nat) :=
  match tr.providerId with
  | none    => c.providers
  | some id =>
    let (p, ttft) := (c.providers.lookup id).getD ({ providerId := id }, [])
    c.providers.insert id (p.count tr, ttft ++ tr.ttftMs.toList)

def countDay (tr : RequestTrace F) : Counting :=
  { c with
    last24h   := c.last24h.count tr
    dayTtft   := c.dayTtft ++ tr.ttftMs.toList
    providers := c.countProvider tr }

-- Nothing, where there's no bucket for the hour.
def countHour (now : Nat) (tr : RequestTrace F) : Option Counting := do
  let i := (tr.ts - firstHour now) / hourSecs
  let h ← c.hourly[i]?
  return { c with hourly := c.hourly.set i (h.count tr) }

def count (now : Nat) (tr : RequestTrace F) : Option Counting :=
  let c := if weekStart now < tr.ts then c.countWeek tr else c
  let c := if last24hStart now < tr.ts then c.countDay tr else c
  if firstHour now ≤ tr.ts then c.countHour now tr else some c

def start (now : Nat) : Counting where
  hourly := (List.range 24).map fun i => { startSecs := firstHour now + i * hourSecs }

def provided : List ProviderActivity :=
  busiestFirst (·.requests) (·.providerId) (c.providers.values.map fun (p, ttft) =>
    { p with ttftMedianMs := percentile (ttft.insertionSort (· ≤ ·)) 50 })

end Counting

namespace AttemptWindow

variable (w : AttemptWindow)

def count (attempt : AttemptRecord) (takenOver refused : Bool) : AttemptWindow :=
  if refused then { w with refused := w.refused + 1 }
  else if attempt.success then { w with attempts := w.attempts + 1 }
  else
    let kind := attempt.error.getD "unknown"
    { w with
      attempts       := w.attempts + 1
      failures       := w.failures + 1
      takenOver      := w.takenOver + takenOver.toNat
      failuresByKind :=
        w.failuresByKind.insert kind ((w.failuresByKind.lookup kind).getD 0 + 1) }

def countInterrupted (microCredits : I64) : AttemptWindow :=
  { w with
    interruptedCharged             := w.interruptedCharged + 1
    interruptedChargedMicroCredits := w.interruptedChargedMicroCredits.satAdd microCredits }

end AttemptWindow

-- The commonest kind, the earliest in name of several.
def topKind (kinds : Table String Nat) : Option String :=
  (kinds.ascending.foldl (fun best e =>
    match best with
    | none   => some (e.1, e.2)
    | some b => if b.2 < e.2 ∨ (b.2 = e.2 ∧ e.1 ≤ b.1) then some (e.1, e.2) else some b)
    none).map (·.1)

namespace ModelHealthWindow

variable (w : ModelHealthWindow)

def countInterrupted (microCredits : I64) : ModelHealthWindow :=
  { w with
    interruptedCharged             := w.interruptedCharged + 1
    interruptedChargedMicroCredits := w.interruptedChargedMicroCredits.satAdd microCredits }

def count (ts : Nat) (failure : Option String) (times : Nat) : ModelHealthWindow :=
  match failure with
  | none      => { w with requests := w.requests + times }
  | some kind =>
    let kinds := w.failuresByKind.insert kind ((w.failuresByKind.lookup kind).getD 0 + times)
    { w with
      requests       := w.requests + times
      failures       := w.failures + times
      lastFailureAt  := some (w.lastFailureAt.elim ts (max · ts))
      failuresByKind := kinds
      topFailureKind := topKind kinds }

end ModelHealthWindow

-- Changes what's of the periods that a trace is within.
def Periods.update {W : Type} (p : Periods W) (within : Periods Bool) (f : W → W) : Periods W where
  last1h  := if within.last1h then f p.last1h else p.last1h
  last24h := if within.last24h then f p.last24h else p.last24h
  last7d  := if within.last7d then f p.last7d else p.last7d

def Periods.all {W : Type} (w : W) : Periods W := ⟨w, w, w⟩

inductive Period
  | last1h
  | last24h
  | last7d

def Period.start (now : Nat) : Period → Nat
  | last1h  => now - hourSecs
  | last24h => now - 24 * hourSecs
  | last7d  => now - 7 * 24 * hourSecs

def RequestTrace.inside (tr : RequestTrace F) (now : Nat) (i : Period) : Bool :=
  i.start now < tr.ts

def RequestTrace.within (tr : RequestTrace F) (now : Nat) : Periods Bool :=
  ⟨tr.inside now .last1h, tr.inside now .last24h, tr.inside now .last7d⟩

structure Health (F : Type) where
  providers : Table String ProviderAttempts := ∅
  keys      : Table String KeyAttempts := ∅
  models    : Table String ModelHealth := ∅
  refusals  : List (RequestTrace F × Periods Bool) := []

namespace Health

variable (h : Health F)

def updateProvider (id : String) (within : Periods Bool) (f : AttemptWindow → AttemptWindow) :
    Health F :=
  let p := (h.providers.lookup id).getD ⟨.all {}, id⟩
  { h with providers := h.providers.insert id { p with toPeriods := p.toPeriods.update within f } }

def updateKey (k : KeyAttempts) (within : Periods Bool) (f : AttemptWindow → AttemptWindow) :
    Health F :=
  { h with keys := h.keys.insert k.keyId { k with toPeriods := k.toPeriods.update within f } }

def countAttempt (within : Periods Bool) (takenOver refused : Bool) (attempt : AttemptRecord) :
    Health F :=
  let h := h.updateProvider attempt.providerId within (·.count attempt takenOver refused)
  if attempt.keyId.isEmpty then h
  else
    let k := (h.keys.lookup attempt.keyId).getD ⟨.all {}, attempt.keyId, attempt.providerId⟩
    h.updateKey k within (·.count attempt takenOver refused)

-- What follows the attempt at an index; nothing, where the slice would start behind the end.
def after (chain : List AttemptRecord) (start : Nat) : Option (List AttemptRecord) :=
  if start ≤ chain.length then some (chain.drop start) else none

def countChain (tr : RequestTrace F) (within : Periods Bool) : Option (Health F) :=
  let last := tr.attemptChain.length - 1
  tr.attemptChain.zipIdx.foldlM (fun h (attempt, index) => do
    let later ← after tr.attemptChain (index + 1)
    let takenOver := later.any fun l => l.success && l.providerId ≠ attempt.providerId
    let refused := tr.refusedForCard && index = last && !attempt.success
    return h.countAttempt within takenOver refused attempt) h

-- Served, and interrupted after it was charged: the serving provider's and key's.
def countInterrupted (tr : RequestTrace F) (within : Periods Bool) : Health F :=
  match tr.providerId.filter fun _ => tr.interruptedCharged with
  | none    => h
  | some id =>
    let h := h.updateProvider id within (·.countInterrupted tr.creditsCharged)
    let serving := tr.attemptChain.reverse.find? fun a =>
      a.success && a.providerId = id && !a.keyId.isEmpty
    match serving.bind fun a => h.keys.lookup a.keyId with
    | none   => h
    | some k => h.updateKey k within (·.countInterrupted tr.creditsCharged)

end Health

-- Cut short after it was charged, a request has not failed.
def RequestTrace.failure (tr : RequestTrace F) : Option String :=
  if tr.status = .error && !tr.interruptedCharged then
    some ((tr.errorClass.or ((tr.attemptChain.reverse.find? fun a => !a.success).bind
      (·.error))).getD "unknown")
  else none

def RequestTrace.countIn (tr : RequestTrace F) (w : ModelHealthWindow) : ModelHealthWindow :=
  let w := w.count tr.lastSeen tr.failure tr.occurrences
  if tr.interruptedCharged then w.countInterrupted tr.creditsCharged else w

namespace Health

variable (h : Health F)

def countModel (tr : RequestTrace F) (within : Periods Bool) : Health F :=
  if tr.status = .inProgress || tr.exposedModel.isEmpty then h
  else if tr.refusedForCard then { h with refusals := h.refusals ++ [(tr, within)] }
  else
    let m := (h.models.lookup tr.exposedModel).getD ⟨.all {}, tr.exposedModel⟩
    { h with
      models := h.models.insert tr.exposedModel
        { m with toPeriods := m.toPeriods.update within tr.countIn } }

def count (now : Nat) (tr : RequestTrace F) : Option (Health F) := do
  let within := tr.within now
  let h ← h.countChain tr within
  return (h.countInterrupted tr within).countModel tr within

-- Counted under a model that requests list already.
def countRefusal (models : Table String ModelHealth) (r : RequestTrace F × Periods Bool) :
    Table String ModelHealth :=
  models.update r.1.exposedModel fun m =>
    { m with toPeriods := m.toPeriods.update r.2 fun w =>
        { w with refused := w.refused + r.1.occurrences } }

def modelHealth : Table String ModelHealth := h.refusals.foldl countRefusal h.models

end Health

-- The usage entries of a window.
def billedIn (ledger : List (LedgerEntry F)) (start now : Nat) : List (LedgerEntry F) :=
  ledger.filter fun e => e.kind = .usage && start < e.tsSecs && e.tsSecs ≤ now

def modelUsage (entries : List (LedgerEntry F)) : List ModelUsage :=
  let usage := entries.foldl (fun (usage : Table String (Nat × List String)) e =>
    let (requests, cards) := (usage.lookup e.exposedModel).getD (0, [])
    usage.insert e.exposedModel (requests + 1, e.cardId :: cards)) ∅
  busiestFirst (·.requests) (·.model) (usage.ascending.map fun e =>
    ⟨e.1, e.2.1, e.2.2.dedup.length⟩)

-- The traces that windows of the last 7 days are counted from.
def attemptActivity (traces : List (RequestTrace F)) (now : Nat) : Option (Health F) :=
  (traces.filter fun tr => tr.inside now .last7d && tr.ts ≤ now).foldlM
    (fun h tr => h.count now tr) {}

def countTraces (traces : List (RequestTrace F)) (now : Nat) : Option Counting :=
  (traces.filter fun tr => tr.ts ≤ now && tr.finished).foldlM (fun c tr => c.count now tr)
    (.start now)

-- The activity, or nothing where an index is outside of what it indexes.
def Tables.activity (t : Tables F) (now : Nat) : Option Activity := do
  let c ← countTraces t.traces now
  let h ← attemptActivity t.traces now
  return {
    last24h             :=
      (c.last24h.timed c.dayTtft).bill (billedIn t.ledger (last24hStart now) now)
    last7d              := (c.last7d.timed c.weekTtft).bill (billedIn t.ledger (weekStart now) now)
    hourly              := c.hourly
    providers           := c.provided
    tracesCoverFromSecs := (t.traces.map (·.ts)).min?
    providerAttempts    :=
      busiestFirst (·.last7d.attempts) (·.providerId) (h.providers.ascending.map (·.2))
    keyAttempts         := busiestFirst (·.last7d.attempts) (·.keyId) (h.keys.ascending.map (·.2))
    modelHealth         :=
      busiestFirst (·.last7d.requests) (·.model) (h.modelHealth.ascending.map (·.2))
    modelUsage7d        := modelUsage (billedIn t.ledger (weekStart now) now) }

-- A request that was charged before its client closed.
def RequestTrace.closedCharged (tr : RequestTrace F) : Bool :=
  tr.status = .clientAborted && 0 < tr.creditsCharged

-- The counts of a window over finished traces.
structure Tallied (seen : List (RequestTrace F)) (w : ActivityWindow) : Prop where
  requests : w.requests + w.refused = occurrencesOf seen
  outcomes : w.requests + occurrencesOf (seen.filter (·.closedCharged)) =
    w.succeeded + w.failed + w.clientAborted + w.interruptedCharged

variable {seen : List (RequestTrace F)} {w : ActivityWindow} {tr : RequestTrace F} {now : Nat}
variable {c : Counting}

theorem counted_snoc : occurrencesOf (seen ++ [tr]) = occurrencesOf seen + tr.occurrences := by
  rw [counted_append, counted_cons]
  rfl

theorem counted_filter_snoc (p : RequestTrace F → Bool) : occurrencesOf ((seen ++ [tr]).filter p) =
    occurrencesOf (seen.filter p) + if p tr then tr.occurrences else 0 := by
  rw [List.filter_append, counted_append]
  cases hp : p tr
  case false => simp [hp, occurrencesOf]
  case true => simp [hp, occurrencesOf]

theorem counted_filter_le (p : RequestTrace F → Bool) :
    occurrencesOf (seen.filter p) ≤ occurrencesOf seen :=
  (List.filter_sublist.map _).sum_le_sum fun _ _ => Nat.zero_le _

namespace RequestTrace

theorem error_of_refused (h : tr.refusedForCard) : tr.status = .error :=
  of_decide_eq_true (Bool.and_eq_true_iff.mp h).left

-- A refusal wasn't cut short.
theorem not_interrupted (h : tr.refusedForCard) : tr.interruptedCharged = false := by
  have hr := (Bool.and_eq_true_iff.mp h).right
  rw [interruptedCharged, error_of_refused h]
  cases he : tr.errorClass
  case none => simp
  case some reason =>
    rw [he, Option.any_some, List.contains_iff_mem] at hr
    have hn : reason ≠ "stream_incomplete" := by
      rintro rfl
      exact absurd hr (by decide)
    simp [hn]

theorem closedCharged_iff :
    tr.closedCharged ↔ tr.status = .clientAborted ∧ tr.interruptedCharged := by
  rw [closedCharged, interruptedCharged]
  cases tr.status <;> simp

end RequestTrace

open RequestTrace

theorem Tallied.count (h : Tallied seen w) (hf : tr.finished) :
    Tallied (seen ++ [tr]) (w.count tr) := by
  have hr := h.requests
  have ho := h.outcomes
  rw [finished, decide_eq_true_eq] at hf
  constructor
  all_goals simp only [counted_snoc, counted_filter_snoc, closedCharged_iff, ActivityWindow.count]
  case requests =>
    split
    case isTrue => simp only; omega
    case isFalse =>
      rw [ActivityWindow.interrupted]
      cases hs : tr.status <;> cases hi : tr.interruptedCharged <;> simp [hs] at hf ⊢ <;> omega
  case outcomes =>
    split
    case isTrue hc =>
      simp only [error_of_refused hc, reduceCtorEq, false_and, if_false]
      omega
    case isFalse =>
      rw [ActivityWindow.interrupted]
      cases hs : tr.status
      case success =>
        have hi : tr.interruptedCharged = false := by simp [interruptedCharged, hs]
        simp [hi]
        omega
      case error => cases hi : tr.interruptedCharged <;> simp <;> omega
      case clientAborted => cases hi : tr.interruptedCharged <;> simp <;> omega
      case inProgress => exact absurd hs hf

theorem Tallied.timed (h : Tallied seen w) (ttft : List Nat) : Tallied seen (w.timed ttft) :=
  ⟨h.requests, h.outcomes⟩

theorem Tallied.bill (h : Tallied seen w) (entries : List (LedgerEntry F)) :
    Tallied seen (w.bill entries) := by
  suffices hs : ∀ w', Tallied seen w' → Tallied seen (entries.foldl _ w') from
    have hb := hs w h
    ⟨hb.requests, hb.outcomes⟩
  intro w' hw
  induction entries generalizing w'
  case nil => exact hw
  case cons hi => exact hi _ ⟨hw.requests, hw.outcomes⟩

-- The counts of an hour.
def HourTallied (seen : List (RequestTrace F)) (h : ActivityHour) : Prop :=
  h.requests + h.refused =
    occurrencesOf (seen.filter fun tr => h.startSecs ≤ tr.ts && tr.ts < h.startSecs + hourSecs)

structure Counts (now : Nat) (seen : List (RequestTrace F)) (c : Counting) : Prop where
  day    : Tallied (seen.filter (last24hStart now < ·.ts)) c.last24h
  week   : Tallied (seen.filter (weekStart now < ·.ts)) c.last7d
  hours  : c.hourly.length = 24
  hourly : ∀ i h, c.hourly[i]? = some h →
    h.startSecs = firstHour now + i * hourSecs ∧ HourTallied seen h

-- The hour that a trace of the last hours is in.
theorem hour_lt (hf : firstHour now ≤ tr.ts) (hn : tr.ts ≤ now) :
    (tr.ts - firstHour now) / hourSecs < 24 := by
  simp only [firstHour, hourSecs] at *
  omega

theorem set_eq_modify {α : Type} {l : List α} {i : Nat} {f : α → α} (h : i < l.length) :
    l.set i (f l[i]) = l.modify i f := by
  refine List.ext_getElem? fun j => ?_
  rw [List.getElem?_set, List.getElem?_modify]
  by_cases hj : i = j
  case pos =>
    subst hj
    simp [h]
  case neg => simp [hj]

-- What's counted of a further trace.
theorem Counting.count_eq (hc : c.hourly.length = 24) (hn : tr.ts ≤ now) :
    ∃ c', c.count now tr = some c' ∧
      c'.last24h = (if last24hStart now < tr.ts then c.last24h.count tr else c.last24h) ∧
      c'.last7d = (if weekStart now < tr.ts then c.last7d.count tr else c.last7d) ∧
      c'.hourly = if firstHour now ≤ tr.ts then
        c.hourly.modify ((tr.ts - firstHour now) / hourSecs) (·.count tr) else c.hourly := by
  have hw : ∀ c : Counting, c.hourly.length = 24 → firstHour now ≤ tr.ts →
      c.countHour now tr = some { c with
        hourly := c.hourly.modify ((tr.ts - firstHour now) / hourSecs) (·.count tr) } := by
    intro c hc hf
    have hl := hc ▸ hour_lt hf hn
    rw [countHour, List.getElem?_eq_getElem hl, ←set_eq_modify hl]
    rfl
  rw [Counting.count]
  by_cases hf : firstHour now ≤ tr.ts
  case pos =>
    simp only [if_pos hf]
    by_cases hd : last24hStart now < tr.ts <;> by_cases hk : weekStart now < tr.ts
    all_goals
      simp only [hd, hk, if_true, if_false]
      exact ⟨_, hw _ hc hf, rfl, rfl, rfl⟩
  case neg =>
    simp only [if_neg hf]
    by_cases hd : last24hStart now < tr.ts <;> by_cases hk : weekStart now < tr.ts
    all_goals
      simp only [hd, hk, if_true, if_false]
      exact ⟨_, rfl, rfl, rfl, rfl⟩

theorem Tallied.within {p : RequestTrace F → Bool} (h : Tallied (seen.filter p) w)
    (hf : tr.finished) : Tallied ((seen ++ [tr]).filter p) (if p tr then w.count tr else w) := by
  rw [List.filter_append]
  cases hp : p tr
  case false => simpa [hp] using h
  case true => simpa [hp] using h.count hf

theorem HourTallied.count {h : ActivityHour} (hh : HourTallied seen h)
    (ht : h.startSecs ≤ tr.ts ∧ tr.ts < h.startSecs + hourSecs) :
    (h.count tr).startSecs = h.startSecs ∧ HourTallied (seen ++ [tr]) (h.count tr) := by
  have hs : (h.count tr).startSecs = h.startSecs ∧
      (h.count tr).requests + (h.count tr).refused = h.requests + h.refused + tr.occurrences := by
    rw [ActivityHour.count]
    cases tr.refusedForCard <;> cases tr.interruptedCharged <;> simp <;> omega
  refine ⟨hs.left, ?_⟩
  rw [HourTallied] at hh ⊢
  rw [hs.left, hs.right, hh, counted_filter_snoc, if_pos (by simpa using ht)]

theorem HourTallied.skip {h : ActivityHour} (hh : HourTallied seen h)
    (ht : ¬(h.startSecs ≤ tr.ts ∧ tr.ts < h.startSecs + hourSecs)) :
    HourTallied (seen ++ [tr]) h := by
  rw [HourTallied] at hh ⊢
  rw [hh, counted_filter_snoc, if_neg (by simpa using ht), Nat.add_zero]

theorem Counts.count (h : Counts now seen c) (hf : tr.finished) (hn : tr.ts ≤ now) :
    ∃ c', c.count now tr = some c' ∧ Counts now (seen ++ [tr]) c' := by
  have ⟨c', hc, hd, hw, hh⟩ := Counting.count_eq h.hours hn
  refine ⟨c', hc, ?_, ?_, ?_, fun i hr hi => ?_⟩
  · have := h.day.within hf
    simpa [hd] using this
  · have := h.week.within hf
    simpa [hw] using this
  · rw [hh]
    split
    case isTrue => rw [List.length_modify, h.hours]
    case isFalse => exact h.hours
  · rw [hh] at hi
    split at hi
    case isTrue hb =>
      rw [List.getElem?_modify] at hi
      have ⟨hr', he, hm⟩ := Option.map_eq_some_iff.mp hi
      have ⟨hs, ht⟩ := h.hourly i hr' he
      split at hm
      case isTrue hx =>
        subst hm
        have ht' : _ ∧ HourTallied (seen ++ [tr]) _ := ht.count (by
          simp only [hourSecs] at *
          omega)
        exact ⟨ht'.left.trans hs, ht'.right⟩
      case isFalse hx =>
        subst hm
        refine ⟨hs, ht.skip ?_⟩
        simp only [hourSecs] at *
        omega
    case isFalse hb =>
      have ⟨hs, ht⟩ := h.hourly i hr hi
      refine ⟨hs, ht.skip ?_⟩
      omega

theorem counts_start : Counts (F := F) now [] (.start now) := by
  refine ⟨⟨rfl, rfl⟩, ⟨rfl, rfl⟩, ?_, fun i h hi => ?_⟩
  · rw [Counting.start, List.length_map, List.length_range]
  · rw [Counting.start, List.getElem?_map] at hi
    have ⟨j, hj, he⟩ := Option.map_eq_some_iff.mp hi
    have ⟨_, hj⟩ := List.getElem?_eq_some_iff.mp hj
    subst he
    rw [List.getElem_range] at hj
    exact ⟨hj ▸ rfl, rfl⟩

-- All finished traces are counted, and none is outside of the hours.
theorem countTraces_counts (traces : List (RequestTrace F)) (now : Nat) :
    ∃ c, countTraces traces now = some c ∧
      Counts now (traces.filter fun tr => tr.ts ≤ now && tr.finished) c := by
  refine List.foldlM_of_step (fun seen c tr hm h => ?_) counts_start
  have hp := (List.mem_filter.mp hm).right
  rw [Bool.and_eq_true, decide_eq_true_eq] at hp
  exact h.count hp.right hp.left

def Periods.of {W : Type} (p : Periods W) : Period → W
  | .last1h  => p.last1h
  | .last24h => p.last24h
  | .last7d  => p.last7d

variable {i : Period}

theorem Periods.of_update {W : Type} {p : Periods W} {within : Periods Bool} {f : W → W} :
    (p.update within f).of i = if within.of i then f (p.of i) else p.of i := by
  cases i <;> rfl

theorem Periods.of_all {W : Type} {w : W} : (Periods.all w).of i = w := by
  cases i <;> rfl

theorem Periods.of_mk {W : Type} (f : Period → W) :
    (Periods.mk (f .last1h) (f .last24h) (f .last7d)).of i = f i := by
  cases i <;> rfl

theorem of_within : (tr.within now).of i = tr.inside now i := Periods.of_mk (tr.inside now)

theorem RequestTrace.inside_last7d (h : tr.inside now i) : tr.inside now .last7d := by
  rw [inside, decide_eq_true_eq] at h ⊢
  refine Nat.lt_of_le_of_lt ?_ h
  cases i <;> simp only [Period.start, hourSecs] <;> omega

variable {h h' : Health F} {name : String}

-- A trace that's counted under a model.
def RequestTrace.served (tr : RequestTrace F) (name : String) : Bool :=
  tr.finished && !tr.exposedModel.isEmpty && !tr.refusedForCard && tr.exposedModel = name

-- A trace that's counted as refused under a model that has others.
def RequestTrace.turnedAway (tr : RequestTrace F) : Bool :=
  tr.finished && !tr.exposedModel.isEmpty && tr.refusedForCard

def requestsOf (models : Table String ModelHealth) (name : String) (i : Period) : Nat :=
  (models.lookup name).elim 0 fun m => (m.of i).requests

-- The requests by model.
structure Healthy (now : Nat) (seen : List (RequestTrace F)) (h : Health F) : Prop where
  named    : ∀ name m, h.models.lookup name = some m →
    m.model = name ∧ ¬name.isEmpty ∧ ∀ i, (m.of i).refused = 0
  requests : ∀ name i, requestsOf h.models name i =
    occurrencesOf (seen.filter fun tr => tr.served name && tr.inside now i)
  refusals : h.refusals = (seen.filter (·.turnedAway)).map fun tr => (tr, tr.within now)

theorem Healthy.of_models {h h' : Health F} (hh : Healthy now seen h)
    (he : h'.models = h.models ∧ h'.refusals = h.refusals) : Healthy now seen h' := by
  refine ⟨?_, ?_, ?_⟩
  · exact he.left ▸ hh.named
  · exact he.left ▸ hh.requests
  · exact he.right ▸ hh.refusals

namespace Health

theorem countAttempt_models {within : Periods Bool} {takenOver refused : Bool}
    {attempt : AttemptRecord} :
    (h.countAttempt within takenOver refused attempt).models = h.models ∧
      (h.countAttempt within takenOver refused attempt).refusals = h.refusals := by
  rw [countAttempt]
  split <;> exact ⟨rfl, rfl⟩

theorem countInterrupted_models {within : Periods Bool} :
    (h.countInterrupted tr within).models = h.models ∧
      (h.countInterrupted tr within).refusals = h.refusals := by
  rw [countInterrupted]
  split
  case h_1 => exact ⟨rfl, rfl⟩
  case h_2 =>
    simp only
    split <;> exact ⟨rfl, rfl⟩

-- Every slice of a chain starts within it.
theorem countChain_models (h : Health F) (tr : RequestTrace F) (within : Periods Bool) :
    ∃ h', h.countChain tr within = some h' ∧ h'.models = h.models ∧ h'.refusals = h.refusals := by
  rw [countChain]
  refine List.foldlM_of_step
    (P := fun _ (h' : Health F) => h'.models = h.models ∧ h'.refusals = h.refusals)
    (fun _ h₁ (attempt, index) hm he => ?_) ⟨rfl, rfl⟩
  have hl := (List.mem_zipIdx hm).right.left
  have hs : after tr.attemptChain (index + 1) = some (tr.attemptChain.drop (index + 1)) :=
    if_pos (by omega)
  simp only [hs]
  refine ⟨_, rfl, ?_⟩
  exact ⟨countAttempt_models.left.trans he.left, countAttempt_models.right.trans he.right⟩

end Health

theorem Healthy.skip (hh : Healthy now seen h) (hs : ∀ name, tr.served name = false)
    (ht : tr.turnedAway = false) : Healthy now (seen ++ [tr]) h := by
  refine ⟨hh.named, fun name i => ?_, ?_⟩
  · rw [hh.requests, counted_filter_snoc, hs, Bool.false_and, if_neg Bool.false_ne_true,
      Nat.add_zero]
  · rw [hh.refusals, List.filter_append, List.filter_singleton, ht]
    simp

theorem RequestTrace.countIn_eq {w : ModelHealthWindow} :
    (tr.countIn w).requests = w.requests + tr.occurrences ∧ (tr.countIn w).refused = w.refused := by
  have hc : (w.count tr.lastSeen tr.failure tr.occurrences).requests =
      w.requests + tr.occurrences ∧
      (w.count tr.lastSeen tr.failure tr.occurrences).refused = w.refused := by
    cases tr.failure <;> exact ⟨rfl, rfl⟩
  rw [countIn]
  split
  case isTrue => exact hc
  case isFalse => exact hc

-- A further trace under a model.
theorem Healthy.countModel (hh : Healthy now seen h) :
    Healthy now (seen ++ [tr]) (h.countModel tr (tr.within now)) := by
  rw [Health.countModel]
  split
  case isTrue hs =>
    refine hh.skip (fun name => ?_) ?_
    · simp only [served, finished]
      grind
    · simp only [turnedAway, finished]
      grind
  case isFalse hs =>
    have hf : tr.finished ∧ tr.exposedModel.isEmpty = false := by
      simpa [finished] using hs
    split
    case isTrue hr =>
      have hv : ∀ name, tr.served name = false := fun name => by simp [served, hr]
      have ht : tr.turnedAway := by simp [turnedAway, hf, hr]
      refine ⟨hh.named, fun name i => ?_, ?_⟩
      · rw [hh.requests, counted_filter_snoc, hv, Bool.false_and, if_neg Bool.false_ne_true,
          Nat.add_zero]
      · simp only
        rw [hh.refusals, List.filter_append, List.map_append, List.filter_cons_of_pos ht]
        rfl
    case isFalse hr =>
      have hv : ∀ name, tr.served name = decide (tr.exposedModel = name) := fun name => by
        simp [served, hf, hr]
      have ht : tr.turnedAway = false := by simp [turnedAway, hr]
      let m := (h.models.lookup tr.exposedModel).getD ⟨.all {}, tr.exposedModel⟩
      have hm : m.model = tr.exposedModel ∧ ∀ i, (m.of i).refused = 0 ∧
          (m.of i).requests = requestsOf h.models tr.exposedModel i := by
        simp only [m, requestsOf]
        cases hl : h.models.lookup tr.exposedModel
        case none => exact ⟨rfl, fun i => by simp [Periods.of_all]⟩
        case some m =>
          have ⟨hn, _, hz⟩ := hh.named _ m hl
          exact ⟨hn, fun i => ⟨hz i, rfl⟩⟩
      have hu : ∀ i, ((m.toPeriods.update (tr.within now) tr.countIn).of i).refused = 0 ∧
          ((m.toPeriods.update (tr.within now) tr.countIn).of i).requests =
            (m.of i).requests + if tr.inside now i then tr.occurrences else 0 := by
        intro i
        rw [Periods.of_update, of_within]
        split
        case isTrue => exact ⟨countIn_eq.right.trans (hm.right i).left, countIn_eq.left⟩
        case isFalse => exact ⟨(hm.right i).left, rfl⟩
      refine ⟨fun name m' hl => ?_, fun name i => ?_, ?_⟩
      · rcases AList.lookup_insert_iff.mp hl with ⟨rfl, rfl⟩ | ⟨hn, hl⟩
        · exact ⟨hm.left, Bool.eq_false_iff.mp hf.right, fun i => (hu i).left⟩
        · exact hh.named name m' hl
      · rw [counted_filter_snoc, hv, ←hh.requests]
        simp only [requestsOf]
        by_cases hn : tr.exposedModel = name
        case pos =>
          subst hn
          have hd : decide (tr.exposedModel = tr.exposedModel) = true := decide_eq_true rfl
          rw [AList.lookup_insert, Option.elim_some, hd, Bool.true_and]
          exact (hu i).right.trans (congrArg (· + _) (hm.right i).right)
        case neg =>
          rw [AList.lookup_insert_ne (Ne.symm hn)]
          simp [hn]
      · rw [hh.refusals, List.filter_append, List.filter_cons_of_neg (by simp [ht])]
        simp

theorem Healthy.count (hh : Healthy now seen h) :
    ∃ h', h.count now tr = some h' ∧ Healthy now (seen ++ [tr]) h' := by
  have ⟨h', hc, he⟩ := h.countChain_models tr (tr.within now)
  refine ⟨_, by rw [Health.count, hc]; rfl, Healthy.countModel ?_⟩
  exact (hh.of_models he).of_models Health.countInterrupted_models

theorem attemptActivity_healthy (traces : List (RequestTrace F)) (now : Nat) :
    ∃ h, attemptActivity traces now = some h ∧
      Healthy now (traces.filter fun tr => tr.inside now .last7d && tr.ts ≤ now) h :=
  List.foldlM_of_step (fun _ _ _ _ hh => hh.count)
    ⟨fun _ _ hl => absurd hl (by simp), fun _ _ => rfl, rfl⟩

-- What refusals add under models.
def TurnedAway (models : Table String ModelHealth) (seen : List (RequestTrace F × Periods Bool))
    (models' : Table String ModelHealth) : Prop :=
  ∀ name m', models'.lookup name = some m' → ∃ m, models.lookup name = some m ∧
    m'.model = m.model ∧ ∀ i, (m'.of i).requests = (m.of i).requests ∧ (m'.of i).refused =
      (m.of i).refused + occurrencesOf ((seen.filter fun r => r.1.exposedModel = name && r.2.of i).map
        (·.1))

theorem TurnedAway.count {models models' : Table String ModelHealth}
    {seen : List (RequestTrace F × Periods Bool)} {r : RequestTrace F × Periods Bool}
    (h : TurnedAway models seen models') :
    TurnedAway models (seen ++ [r]) (Health.countRefusal models' r) := by
  intro name m' hl
  rw [Health.countRefusal, AList.lookup_update] at hl
  split at hl
  case isTrue he =>
    subst he
    obtain ⟨m₁, hm, hu⟩ := Option.map_eq_some_iff.mp hl
    obtain ⟨m, hk, hn, hi⟩ := h _ m₁ hm
    subst hu
    refine ⟨m, hk, hn, fun i => ?_⟩
    obtain ⟨hq, hr⟩ := hi i
    rw [List.filter_append, List.map_append, counted_append, Periods.of_update]
    cases hw : r.2.of i
    case false => simpa [hw] using ⟨hq, hr⟩
    case true =>
      simp [hw, hq, hr, occurrencesOf, Nat.add_assoc]
  case isFalse he =>
    obtain ⟨m, hl, hn, hi⟩ := h _ m' hl
    refine ⟨m, hl, hn, fun i => ?_⟩
    obtain ⟨hq, hr⟩ := hi i
    have hf : [r].filter (fun r => r.1.exposedModel = name && r.2.of i) = [] := by
      simp [Ne.symm he]
    rw [List.filter_append, hf, List.append_nil]
    exact ⟨hq, hr⟩

theorem modelHealth_turnedAway (h : Health F) :
    TurnedAway h.models h.refusals h.modelHealth :=
  List.foldl_of_step (fun _ _ _ _ => TurnedAway.count)
    fun _ m hl => ⟨m, hl, rfl, fun _ => ⟨rfl, rfl⟩⟩

theorem counted_split (p q : RequestTrace F → Bool) :
    occurrencesOf (seen.filter fun tr => p tr && !q tr) +
      occurrencesOf (seen.filter fun tr => p tr && q tr) = occurrencesOf (seen.filter p) := by
  induction seen
  case nil => rfl
  case cons tr seen hi =>
    cases hp : p tr <;> cases hq : q tr
    all_goals simp only [hp, hq, List.filter_cons, Bool.true_and, Bool.false_and, Bool.not_true,
      Bool.not_false, Bool.false_eq_true, if_true, if_false, counted_cons]
    all_goals omega

-- All finished requests of a model that's listed are counted under it.
theorem Healthy.listed (hh : Healthy now seen h) {m : ModelHealth}
    (hl : h.modelHealth.lookup name = some m) : m.model = name ∧ ∀ i, (m.of i).requests +
      (m.of i).refused = occurrencesOf (seen.filter fun tr =>
        tr.finished && tr.exposedModel = name && tr.inside now i) := by
  have ⟨m₀, hl, hn, hi⟩ := modelHealth_turnedAway h name m hl
  have ⟨hm, he, hz⟩ := hh.named name m₀ hl
  refine ⟨hn.trans hm, fun i => ?_⟩
  have ⟨hq, hr⟩ := hi i
  have hs := hh.requests name i
  rw [requestsOf, hl, Option.elim_some] at hs
  rw [hq, hr, hs, hz, hh.refusals, List.filter_map, List.map_map, List.filter_filter, Nat.zero_add]
  have hp : ∀ tr : RequestTrace F, (tr.served name && tr.inside now i) =
      (tr.finished && decide (tr.exposedModel = name) && tr.inside now i &&
        !tr.refusedForCard) := by
    intro tr
    by_cases hn : tr.exposedModel = name
    case pos =>
      subst hn
      simp only [served]
      grind
    case neg => simp [served, hn]
  have ht : ∀ tr : RequestTrace F, (((fun r : RequestTrace F × Periods Bool =>
        decide (r.1.exposedModel = name) && r.2.of i) ∘ fun tr => (tr, tr.within now)) tr &&
          tr.turnedAway) =
      (tr.finished && decide (tr.exposedModel = name) && tr.inside now i && tr.refusedForCard) := by
    intro tr
    simp only [Function.comp, of_within]
    by_cases hn : tr.exposedModel = name
    case pos =>
      subst hn
      simp only [turnedAway]
      grind
    case neg => simp [hn]
  have hf : (fun r : RequestTrace F × Periods Bool => r.1) ∘ (fun tr => (tr, tr.within now)) =
      fun tr => tr := rfl
  simp only [hp, ht, hf, List.map_id']
  exact counted_split _ _

-- The finished traces of a time.
def finishedIn (traces : List (RequestTrace F)) (start now : Nat) : List (RequestTrace F) :=
  traces.filter fun tr => tr.finished && start < tr.ts && tr.ts ≤ now

theorem finishedIn_eq {traces : List (RequestTrace F)} {start : Nat} :
    (traces.filter fun tr => tr.ts ≤ now && tr.finished).filter (start < ·.ts) =
      finishedIn traces start now := by
  rw [finishedIn, List.filter_filter]
  refine List.filter_congr fun tr _ => ?_
  grind

-- What the activity counts of the traces.
structure Activity.Counts (traces : List (RequestTrace F)) (now : Nat) (a : Activity) : Prop where
  day    : Tallied (finishedIn traces (last24hStart now) now) a.last24h
  week   : Tallied (finishedIn traces (weekStart now) now) a.last7d
  hours  : a.hourly.length = 24
  hourly : ∀ i h, a.hourly[i]? = some h → h.startSecs = (now / hourSecs - 23 + i) * hourSecs ∧
    HourTallied (traces.filter fun tr => tr.finished && tr.ts ≤ now) h
  models : ∀ m ∈ a.modelHealth, ∀ i, (m.of i).requests + (m.of i).refused =
    occurrencesOf ((finishedIn traces (i.start now) now).filter (·.exposedModel = m.model))

-- No index is outside of what it indexes, and all finished requests are counted.
theorem Tables.activity_counts (t : Tables F) (now : Nat) :
    ∃ a, t.activity now = some a ∧ a.Counts t.traces now := by
  have ⟨c, hc, hcs⟩ := countTraces_counts t.traces now
  have ⟨h, hh, hhs⟩ := attemptActivity_healthy t.traces now
  have hd := (hcs.day.timed c.dayTtft).bill (billedIn t.ledger (last24hStart now) now)
  have hw := (hcs.week.timed c.weekTtft).bill (billedIn t.ledger (weekStart now) now)
  rw [finishedIn_eq] at hd hw
  refine ⟨_, by rw [Tables.activity, hc, hh]; rfl, hd, hw, hcs.hours, fun i hr hi => ?_,
    fun m hm i => ?_⟩
  · have ⟨hs, ht⟩ := hcs.hourly i hr hi
    refine ⟨hs.trans (Nat.add_mul _ _ _).symm, ?_⟩
    have hf : (fun tr : RequestTrace F => tr.finished && decide (tr.ts ≤ now)) =
        fun tr => decide (tr.ts ≤ now) && tr.finished := funext fun _ => Bool.and_comm _ _
    rwa [hf]
  · have ⟨e, he, hem⟩ := List.mem_map.mp ((List.mem_insertionSort _).mp hm)
    have hl := AList.mem_entries_iff.mp ((AList.ascending_perm _).mem_iff.mp he)
    have ⟨hn, hi⟩ := hhs.listed hl
    rw [←hem, hi, hn, finishedIn, List.filter_filter, List.filter_filter]
    congr 1
    refine List.filter_congr fun tr _ => ?_
    have hk : tr.inside now i → tr.inside now .last7d := inside_last7d
    have hs : tr.inside now i = decide (i.start now < tr.ts) := rfl
    grind

theorem counted_finishedIn_le {traces : List (RequestTrace F)} {start : Nat} :
    occurrencesOf (finishedIn traces start now) ≤ occurrencesOf traces := counted_filter_le _

-- Traces of calls made in order stand for all of them, and the activity counts them.
theorem traces_lose_nothing {calls : List (RequestTrace F)} (hf : ∀ call ∈ calls, call.Fresh)
    (hs : calls.Pairwise fun a b => a.ts ≤ b.ts) (hb : calls.length ≤ u64Max)
    (hl : (recordTraces calls).length < maxRetainedTraces) :
    occurrencesOf (recordTraces calls) = calls.length ∧
    (recordTraces calls).Pairwise (fun a b => ¬a.isRepeatedBy b ∧ ¬b.isRepeatedBy a) ∧
    ∀ (t : Tables F) (now : Nat), t.traces = recordTraces calls →
      ∃ a, t.activity now = some a ∧ a.Counts t.traces now ∧
        a.last24h.requests + a.last24h.refused ≤ calls.length ∧
        a.last7d.requests + a.last7d.refused ≤ calls.length := by
  have h := recordTraces_folded hf hs hb hl
  refine ⟨h.counts, h.apart, fun t now ht => ?_⟩
  have ⟨a, ha, hc⟩ := t.activity_counts now
  have hn : occurrencesOf t.traces = calls.length := ht ▸ h.counts
  refine ⟨a, ha, hc, ?_, ?_⟩
  · rw [hc.day.requests, ←hn]
    exact counted_finishedIn_le
  · rw [hc.week.requests, ←hn]
    exact counted_finishedIn_le

section

def refusedAt (ts : Nat) : RequestTrace Unit where
  id                   := "trace"
  cardId               := "card"
  ts                   := ts
  invocationId         := "invocation"
  exposedModel         := "model"
  status               := .error
  errorClass           := some "usage_limit"
  providerId           := none
  inputTokens          := 0
  outputTokens         := 0
  creditsCharged       := 0
  providerCostMicroCny := 0
  attemptChain         := []

theorem traces_lose_no_refusal :
    occurrencesOf (recordTraces [refusedAt 0, refusedAt 30]) = 2 ∧
    (recordTraces [refusedAt 0, refusedAt 30]).Pairwise
      (fun a b => ¬a.isRepeatedBy b ∧ ¬b.isRepeatedBy a) ∧
    ∀ (t : Tables Unit) (now : Nat), t.traces = recordTraces [refusedAt 0, refusedAt 30] →
      ∃ a, t.activity now = some a ∧ a.Counts t.traces now ∧
        a.last24h.requests + a.last24h.refused ≤ 2 ∧
        a.last7d.requests + a.last7d.refused ≤ 2 :=
  @traces_lose_nothing _ [refusedAt 0, refusedAt 30]
    (fun _ hm => by rcases List.mem_pair.mp hm with rfl | rfl <;> exact ⟨rfl, rfl⟩)
    (List.pairwise_pair.mpr (by decide)) (by decide) (by decide)

-- A request that was charged and then closed by its client.
def closedAt (ts : Nat) : RequestTrace Unit :=
  { refusedAt ts with
    status         := .clientAborted
    errorClass     := none
    creditsCharged := 5 }

theorem recordTrace_repeated {kept trace : RequestTrace F} (h : kept.isRepeatedBy trace) :
    recordTrace [kept] trace = [kept.repeated trace] := by
  have hn := Nat.not_le.mpr (isRepeatedBy_iff.mp h).right.right.right.right.right
  rw [recordTrace, List.reverse_singleton, foldInto, if_neg hn, if_pos h]
  rfl

-- Refusals at the same time are all counted with the first, up to the largest counter.
theorem recordTraces_replicate (n : Nat) : ∃ kept,
    recordTraces (.replicate (n + 1) (refusedAt 0)) = [kept] ∧ kept.repeats = min n u64Max ∧
      kept.isRepeatedBy (refusedAt 0) := by
  induction n
  case zero => exact ⟨refusedAt 0, rfl, rfl, by decide⟩
  case succ n hi =>
    have ⟨kept, hr, hc, hk⟩ := hi
    rw [List.replicate_succ', recordTraces, List.foldl_concat, ←recordTraces, hr]
    refine ⟨_, recordTrace_repeated hk, ?_, hk⟩
    simp only [RequestTrace.repeated, hc, satAddU64, u64Max]
    omega

def recorded (calls : List (RequestTrace Unit)) : Tables Unit where
  settings := { creditFaceValueCny := (), usdCnyRate := () }
  traces   := recordTraces calls

-- What a client closed after it was charged is among both the aborted and the interrupted requests,
-- and a counter doesn't count more than it can.
theorem traces_count_twice :
    (∃ a, (recorded [closedAt 5]).activity 10 = some a ∧
      a.last24h.requests ≠ a.last24h.succeeded + a.last24h.failed + a.last24h.clientAborted +
        a.last24h.interruptedCharged) ∧
    occurrencesOf (recordTraces (.replicate (u64Max + 1) (refusedAt 0))) ≠
      (List.replicate (u64Max + 1) (refusedAt 0)).length := by
  refine ⟨?_, ?_⟩
  · have ⟨a, ha, hc⟩ := (recorded [closedAt 5]).activity_counts 10
    refine ⟨a, ha, fun he => ?_⟩
    have ho := hc.day.outcomes
    have hn : occurrencesOf ((finishedIn (recorded [closedAt 5]).traces (last24hStart 10) 10).filter
      (·.closedCharged)) = 1 := by decide
    omega
  · have ⟨kept, hr, hc, _⟩ := recordTraces_replicate u64Max
    rw [hr, counted_cons, List.length_replicate, occurrences, hc]
    simp [occurrencesOf, satAddU64, u64Max]

end

end Billing
