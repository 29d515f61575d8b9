import Superkiro.Lib.Tally
import Superkiro.Billing.Quota
import Superkiro.Billing.Retry
import Superkiro.Wire.Dates

namespace Billing

open F64 AList Wire.Dates

structure DailyUsage (α : Type) where
  date   : String
  points : α
  tokens : Nat

structure SettledModelUsage (α : Type) where
  name   : String
  tokens : Nat
  points : α
  daily  : List (DailyUsage α)

-- What a customer sees of the usage that was settled on a card.
structure SettledUsage (α : Type) where
  activatedAt : Option Nat
  totalPoints : α
  totalTokens : Nat
  todayPoints : α
  todayTokens : Nat
  daily       : List (DailyUsage α)
  models      : List (SettledModelUsage α)
  windowStart : Nat
  windowEnd   : Nat
  timezone    : String

-- The last 30 days, including the current second.
def window (now : Nat) : Nat × Nat := ((now / 86400 - 29) * 86400, satAddU64 now 1)

namespace LedgerEntry

def inWindow (cardId : String) (start stop : Nat) (e : LedgerEntry F) : Bool :=
  e.cardId = cardId && e.kind = .usage && start ≤ e.tsSecs && e.tsSecs < stop

-- What's settled is an invocation. Entries without one stand for themselves.
def settled (e : LedgerEntry F) : Bool × String :=
  (e.invocationId.isSome, e.invocationId.getD e.id)

def day (e : LedgerEntry F) : Nat := e.tsSecs / 86400

end LedgerEntry

-- Credits and tokens.
abbrev Amount := I64 × Nat

def Amount.charge (a : Amount) (e : LedgerEntry F) : Amount :=
  (a.1.satAdd e.creditsCharged, satAddU64 a.2 (satAddU64 e.inputTokens e.outputTokens))

structure Tallies where
  seen      : Finset (Bool × String) := ∅
  days      : Table Nat Amount := ∅
  models    : Table String Amount := ∅
  modelDays : Table String (Table Nat Amount) := ∅
  total     : Amount := (0, 0)

def Tallies.count (t : Tallies) (e : LedgerEntry F) : Tallies :=
  if e.settled ∈ t.seen then
    t
  else {
    seen      := insert e.settled t.seen
    total     := Amount.charge t.total e
    days      := deposit LedgerEntry.day (0, 0) Amount.charge t.days e
    models    := deposit LedgerEntry.exposedModel (0, 0) Amount.charge t.models e
    modelDays :=
      deposit LedgerEntry.exposedModel ∅ (deposit LedgerEntry.day (0, 0) Amount.charge)
        t.modelDays e
  }

def DailyUsage.ofDay (points : I64 → α) (day : Nat) (a : Amount) : DailyUsage α where
  date   := utcDate day
  points := points a.1
  tokens := a.2

def aggregate (points : I64 → α) (entries : List (LedgerEntry F)) (cardId : String) (now : Nat)
    (activatedAt : Option Nat) : SettledUsage α :=
  let start := activatedAt.getD (window now).1
  let today := now / 86400
  let t := (entries.filter (·.inWindow cardId start (window now).2)).foldl Tallies.count {}
  let todayAmount := (t.days.lookup today).getD (0, 0)
  {
    activatedAt
    totalPoints := points t.total.1
    totalTokens := t.total.2
    todayPoints := points todayAmount.1
    todayTokens := todayAmount.2
    daily :=
      if t.days.entries.isEmpty && activatedAt.isNone then []
      else (List.range' (start / 86400) (today + 1 - start / 86400)).map fun day =>
        .ofDay points day ((t.days.lookup day).getD (0, 0))
    models := t.models.ascending.map fun m => {
      name   := m.1
      tokens := m.2.2
      points := points m.2.1
      daily  := ((t.modelDays.lookup m.1).getD ∅).ascending.map fun d => .ofDay points d.1 d.2
    }
    windowStart := start
    windowEnd   := (window now).2
    timezone    := "UTC"
  }

-- `micro as f64 / MICRO_CREDITS_PER_CREDIT as f64`
def inCredits [F64 F] (micro : I64) : F := ofInt micro.val / ofInt microCreditsPerCredit

-- The usage of a card since it was activated. There's none if some of it was archived, as archived
-- summaries know of no tokens and models.
def Tables.settledUsage (points : I64 → α) (t : Tables F) (cardId : String) (now : Nat) :
    Option (SettledUsage α) := do
  let card ← t.cards.lookup cardId
  let start := card.activatedAt.getD (window now).1
  if (window now).2 ≤ start then
    none
  else if (t.archivedLedgerSummary.cards.lookup cardId).any fun c =>
      c.usageBySecond.keys.any fun s => start ≤ s && s < (window now).2 then
    none
  else
    some (aggregate points t.ledger cardId now card.activatedAt)

def DailyUsage.map (f : α → β) (r : DailyUsage α) : DailyUsage β := { r with points := f r.points }

def SettledModelUsage.map (f : α → β) (m : SettledModelUsage α) : SettledModelUsage β :=
  { m with points := f m.points, daily := m.daily.map (·.map f) }

def SettledUsage.map (f : α → β) (u : SettledUsage α) : SettledUsage β := { u with
    totalPoints := f u.totalPoints
    todayPoints := f u.todayPoints
    daily       := u.daily.map (·.map f)
    models      := u.models.map (·.map f)
  }

-- An amount is what entries come to, up to the greatest there is.
structure Comes (points : I64) (tokens : Nat) (es : List (LedgerEntry F)) : Prop where
  points : points.val = min 9223372036854775807 (es.map (·.creditsCharged.val)).sum
  tokens : tokens = min u64Max (es.map fun e => e.inputTokens + e.outputTokens).sum

-- An amount is what a list of amounts comes to, up to the greatest there is.
structure Sums (points : I64) (tokens : Nat) (rows : List (I64 × Nat)) : Prop where
  points : points.val = min 9223372036854775807 (rows.map (·.1.val)).sum
  tokens : tokens = min u64Max (rows.map (·.2)).sum

-- Rows of distinct days, with each entry in the row of its day and in no other.
def Rows (rows : List (DailyUsage I64)) (es : List (LedgerEntry F)) : Prop :=
  ∃ (days : List Nat) (amount : Nat → Amount), days.Nodup ∧ (∀ e ∈ es, e.day ∈ days) ∧
    (∀ d ∈ days, Comes (amount d).1 (amount d).2 (es.filter (·.day = d))) ∧
    rows = days.map fun d => .ofDay id d (amount d)

def DailyUsage.amount (r : DailyUsage I64) : Amount := (r.points, r.tokens)

def SettledModelUsage.amount (m : SettledModelUsage I64) : Amount := (m.points, m.tokens)

-- What a customer sees adds up to some entries, whichever way it's split.
structure SettledUsage.AddsUp (u : SettledUsage I64) (es : List (LedgerEntry F)) : Prop where
  total     : Comes u.totalPoints u.totalTokens es
  daily     : Rows u.daily es
  distinct  : (u.models.map (·.name)).Nodup
  covers    : ∀ e ∈ es, e.exposedModel ∈ u.models.map (·.name)
  models    : ∀ m ∈ u.models, Comes m.points m.tokens (es.filter (·.exposedModel = m.name)) ∧
    Rows m.daily (es.filter (·.exposedModel = m.name))
  dailySum  : Sums u.totalPoints u.totalTokens (u.daily.map (·.amount))
  modelSum  : Sums u.totalPoints u.totalTokens (u.models.map (·.amount))
  modelDays : Sums u.totalPoints u.totalTokens
    (u.models.flatMap fun m => m.daily.map (·.amount))

-- The first entry of each settled invocation among some entries.
structure Counted (es counted : List (LedgerEntry F)) : Prop where
  sublist : counted.Sublist es
  once    : (counted.map (·.settled)).Nodup
  mem     : ∀ e, e ∈ counted ↔ es.find? (·.settled = e.settled) = some e

section

variable {es : List (LedgerEntry F)} {t : Tallies} {a : Amount}

-- Each tally goes through the entries that are met first.
theorem foldl_count (tally : Tallies → α) (g : α → LedgerEntry F → α)
    (h : ∀ t e, e.settled ∉ t.seen → tally (t.count e) = g (tally t) e) :
    tally (es.foldl Tallies.count t) =
      (es.firsts LedgerEntry.settled t.seen).foldl g (tally t) := by
  induction es generalizing t
  case nil => rfl
  case cons e es hi =>
    rw [List.foldl_cons, hi, List.firsts]
    split
    case isTrue hs => rw [Tallies.count, if_pos hs]
    case isFalse hs =>
      rw [h t e hs, List.foldl_cons]
      rw [Tallies.count, if_neg hs]

theorem foldl_charge_points :
    (es.foldl Amount.charge a).1 = I64.satSum a.1 (es.map (·.creditsCharged)) := by
  induction es generalizing a
  case nil => rfl
  case cons e es hi => rw [List.foldl_cons, hi, List.map_cons, I64.satSum_cons, Amount.charge]

theorem foldl_charge_tokens (ha : a.2 ≤ u64Max) : (es.foldl Amount.charge a).2 =
    min u64Max (a.2 + (es.map fun e => e.inputTokens + e.outputTokens).sum) := by
  induction es generalizing a
  case nil => simpa using ha
  case cons e es hi =>
    rw [List.foldl_cons, hi (Nat.min_le_right _ _), List.map_cons, List.sum_cons]
    simp only [Amount.charge, satAddU64]
    omega

theorem comes_foldl (h : ∀ e ∈ es, 0 ≤ e.creditsCharged.val) :
    Comes (es.foldl Amount.charge (0, 0)).1 (es.foldl Amount.charge (0, 0)).2 es := by
  constructor
  case points =>
    rw [foldl_charge_points, I64.val_satSum (Int.le_refl _)]
    · simp [Function.comp_def]
    · intro x hx
      have ⟨e, he, hx⟩ := List.mem_map.mp hx
      exact hx ▸ h e he
  case tokens => rw [foldl_charge_tokens (Nat.zero_le _), Nat.zero_add]

-- What's in a table of amounts under a key is what the entries with that key come to.
theorem comes_lookup {κ : Type} [DecidableEq κ] {k : κ}
    {key : LedgerEntry F → κ} (h : ∀ e ∈ es, 0 ≤ e.creditsCharged.val) {d : Amount}
    (hd : ((es.foldl (deposit key (0, 0) Amount.charge) ∅).lookup k).getD (0, 0) = d) :
    Comes d.1 d.2 (es.filter (key · = k)) := by
  have hc := comes_foldl fun e he => h e (List.mem_of_mem_filter he (p := (key · = k)))
  rw [lookup_deposits] at hd
  split at hd
  case isTrue hn =>
    rw [hn, ←hd]
    exact ⟨rfl, rfl⟩
  case isFalse => exact hd ▸ hc

variable {rows : List (DailyUsage I64)} {t : Table Nat Amount}

theorem Comes.nonneg {x : I64} (h : Comes x n es) (hn : ∀ e ∈ es, 0 ≤ e.creditsCharged.val) :
    0 ≤ x.val := by
  have hs : 0 ≤ (es.map (·.creditsCharged.val)).sum := List.sum_nonneg fun x hx => by
    have ⟨e, he, hx⟩ := List.mem_map.mp hx
    exact hx ▸ hn e he
  rw [h.points]
  omega

-- Amounts of distinct keys that cover the entries come to what the entries come to.
theorem Comes.sums {κ : Type} [DecidableEq κ] {key : LedgerEntry F → κ} {ks : List κ}
    {amount : κ → Amount} {x : I64} (h : Comes x n es) (hn : ∀ e ∈ es, 0 ≤ e.creditsCharged.val)
    (hd : ks.Nodup) (hk : ∀ e ∈ es, key e ∈ ks)
    (ha : ∀ k ∈ ks, Comes (amount k).1 (amount k).2 (es.filter (key · = k))) :
    Sums x n (ks.map amount) := by
  constructor
  case points =>
    have hm : (ks.map amount).map (·.1.val) = ks.map fun k =>
        min 9223372036854775807 ((es.filter (key · = k)).map (·.creditsCharged.val)).sum := by
      rw [List.map_map]
      exact List.map_congr_left fun k hk => (ha k hk).points
    rw [h.points, hm, Cap.int_sum_min _ (by decide), List.sum_sum_filter hd hk]
    intro k _
    refine List.sum_nonneg fun x hx => ?_
    have ⟨e, he, hx⟩ := List.mem_map.mp hx
    exact hx ▸ hn e (List.mem_of_mem_filter he)
  case tokens =>
    have hm : (ks.map amount).map (·.2) = ks.map fun k =>
        min u64Max ((es.filter (key · = k)).map fun e => e.inputTokens + e.outputTokens).sum := by
      rw [List.map_map]
      exact List.map_congr_left fun k hk => (ha k hk).tokens
    rw [h.tokens, hm, Cap.sum_min, List.sum_sum_filter hd hk]

theorem Rows.sums {x : I64} (h : Rows rows es) (hx : Comes x n es)
    (hn : ∀ e ∈ es, 0 ≤ e.creditsCharged.val) : Sums x n (rows.map (·.amount)) := by
  have ⟨days, amount, hd, hk, ha, hr⟩ := h
  have hs := hx.sums hn hd hk ha
  rw [hr, List.map_map]
  exact hs

-- A table's rows in ascending order are a row for each of its keys.
theorem ascending_map {κ : Type} [LE κ] [DecidableLE κ] [DecidableEq κ] {t : Table κ Amount}
    (f : κ → Amount → β) : t.ascending.map (fun m => f m.1 m.2) =
      (t.ascending.map (·.1)).map fun k => f k ((t.lookup k).getD (0, 0)) := by
  rw [List.map_map]
  refine List.map_congr_left fun m hm => ?_
  have hl := mem_entries_iff.mp (t.ascending_perm.mem_iff.mp hm)
  simp [hl]

theorem mem_ascending_keys {κ : Type} [LE κ] [DecidableLE κ] [DecidableEq κ] {t : Table κ α}
    {k : κ} : k ∈ t.ascending.map (·.1) ↔ k ∈ t :=
  (t.ascending_perm.map (·.1)).mem_iff

theorem nodup_ascending_keys {κ : Type} [LE κ] [DecidableLE κ] {t : Table κ α} :
    (t.ascending.map (·.1)).Nodup :=
  (t.ascending_perm.map Sigma.fst).nodup_iff.mpr t.nodupKeys

theorem rows_ascending (hn : ∀ e ∈ es, 0 ≤ e.creditsCharged.val) :
    Rows ((es.foldl (deposit LedgerEntry.day (0, 0) Amount.charge) ∅).ascending.map fun d =>
      .ofDay id d.1 d.2) es := by
  refine ⟨_, _, nodup_ascending_keys, fun e he => ?_, fun d _ => comes_lookup hn rfl,
    ascending_map (DailyUsage.ofDay id)⟩
  exact mem_ascending_keys.mpr (mem_deposits.mpr ⟨e, he, rfl⟩)

-- Sums of lists of amounts that come to one amount each come to the sum of these.
theorem Sums.flatMap {β : Type} {x : I64} {ms : List β} {amount : β → Amount}
    {rows : β → List Amount} (h : Sums x n (ms.map amount))
    (hr : ∀ m ∈ ms, Sums (amount m).1 (amount m).2 (rows m))
    (hn : ∀ m ∈ ms, ∀ r ∈ rows m, 0 ≤ r.1.val) : Sums x n (ms.flatMap rows) := by
  constructor
  case points =>
    have hm : (ms.map amount).map (·.1.val) = ms.map fun m =>
        min 9223372036854775807 ((rows m).map (·.1.val)).sum := by
      rw [List.map_map]
      exact List.map_congr_left fun m hm => (hr m hm).points
    rw [h.points, hm, Cap.int_sum_min _ (by decide), List.map_flatMap, List.flatMap,
      List.sum_flatten, List.map_map]
    · rfl
    · intro m hm
      refine List.sum_nonneg fun x hx => ?_
      have ⟨r, hr, hx⟩ := List.mem_map.mp hx
      exact hx ▸ hn m hm r hr
  case tokens =>
    have hm : (ms.map amount).map (·.2) = ms.map fun m =>
        min u64Max ((rows m).map (·.2)).sum := by
      rw [List.map_map]
      exact List.map_congr_left fun m hm => (hr m hm).tokens
    rw [h.tokens, hm, Cap.sum_min, List.map_flatMap, List.flatMap, List.sum_flatten, List.map_map]
    rfl

theorem Rows.nonneg {rows : List (DailyUsage I64)} (h : Rows rows es)
    (hn : ∀ e ∈ es, 0 ≤ e.creditsCharged.val) : ∀ r ∈ rows.map (·.amount), 0 ≤ r.1.val := by
  have ⟨days, amount, _, _, ha, hr⟩ := h
  subst hr
  intro r hr
  have ⟨row, hr, he⟩ := List.mem_map.mp hr
  have ⟨d, hd, hrow⟩ := List.mem_map.mp hr
  subst he hrow
  exact (ha d hd).nonneg fun e he => hn e (List.mem_of_mem_filter he)

end

section

variable {entries : List (LedgerEntry F)} {cardId : String} {now : Nat} {activatedAt : Option Nat}

-- The entries that are counted: the first of each invocation.
def countedEntries (entries : List (LedgerEntry F)) (cardId : String) (start stop : Nat) :
    List (LedgerEntry F) :=
  (entries.filter (·.inWindow cardId start stop)).firsts LedgerEntry.settled ∅

theorem counted_countedEntries {start stop : Nat} :
    Counted (entries.filter (·.inWindow cardId start stop))
      (countedEntries entries cardId start stop) where
  sublist := List.firsts_sublist
  once    := List.firsts_nodup
  mem e   := by simp [countedEntries, List.mem_firsts]

theorem inWindow_of_counted {start stop : Nat} {e : LedgerEntry F}
    (h : e ∈ countedEntries entries cardId start stop) :
    e ∈ entries ∧ e.cardId = cardId ∧ e.kind = .usage ∧ start ≤ e.tsSecs ∧ e.tsSecs < stop := by
  have h := List.mem_filter.mp (List.firsts_sublist.mem h)
  simpa [LedgerEntry.inWindow, and_assoc] using h

-- The days from the start of the window are the days of everything in it.
theorem day_mem_range {e : LedgerEntry F} {start : Nat} (hs : start ≤ e.tsSecs)
    (he : e.tsSecs < (window now).2) :
    e.day ∈ List.range' (start / 86400) (now / 86400 + 1 - start / 86400) := by
  simp only [window, satAddU64] at he
  have hl : start / 86400 ≤ e.tsSecs / 86400 := Nat.div_le_div_right hs
  have hr : e.tsSecs / 86400 ≤ now / 86400 := Nat.div_le_div_right (by omega)
  rw [LedgerEntry.day, List.mem_range'_1]
  omega

-- A model's row, with what its days came to.
def modelRow (es : List (LedgerEntry F)) (name : String) (a : Amount) : SettledModelUsage I64 where
  name   := name
  tokens := a.2
  points := a.1
  daily  := ((es.filter (·.exposedModel = name)).foldl
    (deposit LedgerEntry.day (0, 0) Amount.charge) ∅).ascending.map fun d => .ofDay id d.1 d.2

section

variable {es : List (LedgerEntry F)}

def tallyDays (es : List (LedgerEntry F)) : Table Nat Amount :=
  es.foldl (deposit LedgerEntry.day (0, 0) Amount.charge) ∅

def tallyModels (es : List (LedgerEntry F)) : Table String Amount :=
  es.foldl (deposit LedgerEntry.exposedModel (0, 0) Amount.charge) ∅

variable (activatedAt) in
theorem dailyRows (hn : ∀ e ∈ es, 0 ≤ e.creditsCharged.val) {start : Nat}
    (hw : ∀ e ∈ es, start ≤ e.tsSecs ∧ e.tsSecs < (window now).2) :
    Rows (if (tallyDays es).entries.isEmpty && activatedAt.isNone then []
      else (List.range' (start / 86400) (now / 86400 + 1 - start / 86400)).map fun day =>
        .ofDay id day (((tallyDays es).lookup day).getD (0, 0))) es := by
  split
  case isTrue h =>
    have he : es = [] := by
      refine List.eq_nil_iff_forall_not_mem.mpr fun e he => ?_
      have hm : e.day ∈ tallyDays es := mem_deposits.mpr ⟨e, he, rfl⟩
      rw [Bool.and_eq_true, List.isEmpty_iff] at h
      rw [AList.mem_keys, AList.keys, h.left] at hm
      cases hm
    subst he
    exact ⟨[], fun _ => (0, 0), .nil, by simp, by simp, rfl⟩
  case isFalse =>
    refine ⟨_, fun day => ((tallyDays es).lookup day).getD (0, 0), List.nodup_range',
      fun e he => day_mem_range (hw e he).left (hw e he).right, fun d _ => ?_, rfl⟩
    exact comes_lookup hn rfl

theorem modelRows (hn : ∀ e ∈ es, 0 ≤ e.creditsCharged.val) :
    ∃ names : List String, ∃ amount : String → Amount, names.Nodup ∧
      (∀ e ∈ es, e.exposedModel ∈ names) ∧
      (∀ n, Comes (amount n).1 (amount n).2 (es.filter (·.exposedModel = n))) ∧
      ((tallyModels es).ascending.map fun m => modelRow es m.1 m.2) =
        names.map fun n => modelRow es n (amount n) := by
  refine ⟨_, _, nodup_ascending_keys, fun e he => ?_, fun n => comes_lookup hn rfl,
    ascending_map (modelRow es)⟩
  exact mem_ascending_keys.mpr (mem_deposits.mpr ⟨e, he, rfl⟩)

-- What the aggregate is made of, in terms of the entries that are counted.
theorem aggregate_eq {start : Nat} (hs : activatedAt.getD (window now).1 = start)
    (hes : countedEntries entries cardId start (window now).2 = es) :
    (aggregate id entries cardId now activatedAt).totalPoints =
      (es.foldl Amount.charge (0, 0)).1 ∧
    (aggregate id entries cardId now activatedAt).totalTokens =
      (es.foldl Amount.charge (0, 0)).2 ∧
    (aggregate id entries cardId now activatedAt).daily =
      (if (tallyDays es).entries.isEmpty && activatedAt.isNone then []
        else (List.range' (start / 86400) (now / 86400 + 1 - start / 86400)).map fun day =>
          .ofDay id day (((tallyDays es).lookup day).getD (0, 0))) ∧
    (aggregate id entries cardId now activatedAt).models =
      (tallyModels es).ascending.map fun m => modelRow es m.1 m.2 := by
  subst hs hes
  generalize hc : countedEntries entries cardId (activatedAt.getD (window now).1)
    (window now).2 = counted
  generalize hw : entries.filter (·.inWindow cardId (activatedAt.getD (window now).1)
    (window now).2) = es
  have hf : es.firsts LedgerEntry.settled ∅ = counted := by rw [←hc, ←hw, countedEntries]
  have htotal : (es.foldl Tallies.count {}).total = counted.foldl Amount.charge (0, 0) := by
    rw [foldl_count Tallies.total _ fun t e h => by rw [Tallies.count, if_neg h], hf]
  have hdays : (es.foldl Tallies.count {}).days = tallyDays counted := by
    rw [foldl_count Tallies.days _ fun t e h => by rw [Tallies.count, if_neg h], hf, tallyDays]
  have hmodels : (es.foldl Tallies.count {}).models = tallyModels counted := by
    rw [foldl_count Tallies.models _ fun t e h => by rw [Tallies.count, if_neg h], hf, tallyModels]
  have hmodelDays : (es.foldl Tallies.count {}).modelDays = counted.foldl
      (deposit LedgerEntry.exposedModel ∅ (deposit LedgerEntry.day (0, 0) Amount.charge)) ∅ := by
    rw [foldl_count Tallies.modelDays _ fun t e h => by rw [Tallies.count, if_neg h], hf]
  have hrow (n : String) : ((es.foldl Tallies.count {}).modelDays.lookup n).getD ∅ =
      (counted.filter (·.exposedModel = n)).foldl
        (deposit LedgerEntry.day (0, 0) Amount.charge) ∅ := by
    rw [hmodelDays, lookup_deposits]
    split
    case isTrue h => rw [h]; rfl
    case isFalse => rfl
  simp only [aggregate, hw, htotal, hdays, hmodels, hrow, modelRow, id_eq, and_self]

end

theorem aggregate_addsUp (h : ∀ e ∈ entries, e.kind = .usage → 0 ≤ e.creditsCharged.val) :
    (aggregate id entries cardId now activatedAt).AddsUp (countedEntries entries cardId
      (activatedAt.getD (window now).1) (window now).2) := by
  generalize hs : activatedAt.getD (window now).1 = start
  have hc : ∀ e ∈ countedEntries entries cardId start (window now).2, _ :=
    fun e he => inWindow_of_counted he
  generalize hes : countedEntries entries cardId start (window now).2 = es at hc
  have hn : ∀ e ∈ es, 0 ≤ e.creditsCharged.val :=
    fun e he => h e (hc e he).left (hc e he).right.right.left
  have ⟨hp, ht, hd, hm⟩ := aggregate_eq hs hes
  have ⟨names, amount, hnames, hcovers, ha, hrows⟩ := modelRows hn
  have htotal := comes_foldl hn
  have hdaily := dailyRows activatedAt hn fun e he => (hc e he).right.right.right
  have hmodelSum := htotal.sums hn hnames hcovers fun n _ => ha n
  have hnf (n : String) : ∀ e ∈ es.filter (·.exposedModel = n), 0 ≤ e.creditsCharged.val :=
    fun e he => hn e (List.mem_of_mem_filter he)
  rw [hrows] at hm
  rw [←hp, ←ht] at htotal hmodelSum
  rw [←hd] at hdaily
  refine {
    total := htotal, daily := hdaily, distinct := ?distinct, covers := ?covers, models := ?models,
    dailySum := hdaily.sums htotal hn, modelSum := ?modelSum, modelDays := ?modelDays
  }
  case distinct => rw [hm, List.map_map]; simpa [modelRow, Function.comp_def] using hnames
  case covers => rw [hm, List.map_map]; simpa [modelRow, Function.comp_def] using hcovers
  case models =>
    intro m hmem
    rw [hm] at hmem
    have ⟨n, _, he⟩ := List.mem_map.mp hmem
    subst he
    exact ⟨ha n, rows_ascending (hnf n)⟩
  case modelSum => rw [hm, List.map_map]; exact hmodelSum
  case modelDays =>
    rw [hm, List.flatMap_map]
    exact hmodelSum.flatMap (fun n _ => (rows_ascending (hnf n)).sums (ha n) (hnf n))
      fun n _ => (rows_ascending (hnf n)).nonneg (hnf n)

end

section

variable {t : Tables F} {cardId : String} {now : Nat} {points : I64 → α} {v : SettledUsage α}

theorem aggregate_map {entries : List (LedgerEntry F)} {activatedAt : Option Nat} :
    aggregate points entries cardId now activatedAt =
      (aggregate id entries cardId now activatedAt).map points := by
  simp only [aggregate, SettledUsage.map, SettledModelUsage.map, DailyUsage.map, DailyUsage.ofDay,
    id_eq, List.map_map, apply_ite (List.map _), List.map_nil, Function.comp_def]

-- A query that's answered aggregates the ledger from the card's activation on.
theorem settledUsage_eq_some (h : t.settledUsage points cardId now = some v) :
    ∃ card, t.cards.lookup cardId = some card ∧
      v = (aggregate id t.ledger cardId now card.activatedAt).map points ∧
      t.settledUsage id cardId now =
        some (aggregate id t.ledger cardId now card.activatedAt) := by
  simp only [Tables.settledUsage, Option.bind_eq_bind, Option.bind_eq_some_iff] at h
  have ⟨card, hc, h⟩ := h
  split at h
  case isTrue => cases h
  case isFalse hw =>
    split at h
    case isTrue => cases h
    case isFalse ha =>
      cases h
      refine ⟨card, hc, aggregate_map, ?_⟩
      simp only [Tables.settledUsage, hc, Option.bind_eq_bind, Option.bind_some, if_neg hw,
        if_neg ha]

end

section

variable [F64 F] [Host F] {e₀ e : Engine F} {ls : List (Engine.Label F)}

end

-- A request whose id is used again after the janitor has forgotten about it.
def chargedTwice : List (Engine.Label ℚ) := [
  ⟨.reserve "card-1" "inv-1" .sample 10 100, {}⟩,
  ⟨.settle "inv-1" { outputTokens := 1000 } "model" "provider" "target" 20, {}⟩,
  ⟨.runJanitor 90000, {}⟩,
  ⟨.reserve "card-1" "inv-1" .sample 90001 100, {}⟩,
  ⟨.settle "inv-1" { outputTokens := 1000 } "model" "provider" "target" 90002, {}⟩
]

end Billing
