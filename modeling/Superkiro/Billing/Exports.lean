import Superkiro.Lib.Csv
import Superkiro.Lib.Decimal
import Superkiro.Billing.Balance

namespace Billing

open F64

def LedgerKind.debug : LedgerKind → String
  | usage      => "Usage"
  | adjustment => "Adjustment"
  | topup      => "Topup"

-- The face value a credit of an entry was earned at.
def entryFaceValue (e : LedgerEntry F) (s : BillingSettings F) : F :=
  (e.creditFaceValueCny <|> s.legacyCreditFaceValueCny).getD s.creditFaceValueCny

def faceValueMicroCny [F64 F] (microCredits : I64) (faceValueCny : F) : I64 :=
  toI64 (round (ofInt microCredits.val * faceValueCny))

-- The money an upgrade or a renewal records the customer paid.
def upgradeCash (parse : String → Option Json) (e : LedgerEntry F) : Option I64 :=
  if e.kind = .adjustment ∧ e.exposedModel = upgradeEvent then
    some <| (((e.eventDetail parse).bind (·.get? "cashMicroCny")).bind Json.asI64?).getD 0
  else
    none

-- Whether a spreadsheet would run a text as a formula.
def beginsFormula (s : String) : Bool := s.toList.head?.any (· ∈ ['=', '+', '-', '@', '\t', '\r'])

def inert (s : String) : String := if beginsFormula s then "'" ++ s else s

def doubleQuotes (s : String) : String := .ofList (Csv.escape s.toList)

def csvText (s : String) : String := "\"" ++ doubleQuotes (inert s) ++ "\""

-- A column of an exported row.
inductive Column
  -- A text cell.
  | text (s : String)
  -- A text that the row itself puts between quotes.
  | quoted (s : String)
  | bare (s : String)
  | number (n : Int)
  -- An amount of millionths, where there is one.
  | amount (micro : Option I64)

namespace Column

def written : Column → String
  | text s   => csvText s
  | quoted s => "\"" ++ doubleQuotes s ++ "\""
  | bare s   => s
  | number n => toString n
  | amount m => (m.map fun m => Text.microDecimal m.val).getD ""

-- What the column is to be read as.
def read : Column → String
  | text s | quoted s | bare s => inert s
  | c                          => c.written

def isText : Column → Bool
  | text _ | quoted _ | bare _ => true
  | _                          => false

end Column

def csvRow (columns : List Column) : String := Csv.line (columns.map Column.written)

def ledgerHeader : List String := [
  "id", "card_id", "ts", "kind", "invocation_id", "exposed_model", "provider_id", "input_tokens",
  "output_tokens", "credits_charged", "provider_cost_micro_cny", "time_utc", "provider_name",
  "cache_read_tokens", "cache_write_tokens", "credits", "revenue_cny", "cost_cny", "operator",
  "reason", "rate_card_version", "key_id", "kind", "cash_cny"]

-- How an adjustment counts, and the money it records.
def moneyKind (parse : String → Option Json) (e : LedgerEntry F) : String × Option I64 :=
  match upgradeCash parse e, adjustmentKind parse e with
  | some paid, _            => ("upgrade", some paid)
  | none, some (kind, cash) => (kind.asStr, cash)
  | none, none              => ("", none)

def ledgerColumns [F64 F] (parse : String → Option Json) (names : Table String String)
    (s : BillingSettings F) (e : LedgerEntry F) : List Column :=
  let usage := e.kind = .usage
  let revenue := if usage then
      some (faceValueMicroCny e.creditsCharged (entryFaceValue e s))
    else none
  let (money, cash) := moneyKind parse e
  let keyId := if usage then (e.detail.bind (·.get? "keyId")).bind Json.asStr? else none
  [.text e.id, .text e.cardId, .number e.tsSecs, .text e.kind.debug,
   .text (e.invocationId.getD ""), .text e.exposedModel, .text e.providerId,
   .number e.inputTokens, .number e.outputTokens, .number e.creditsCharged.val,
   .number e.providerCostMicroCny.val, .text (Text.isoUtc e.tsSecs),
   .text ((names.lookup e.providerId).getD e.providerId), .number e.cacheReadTokens,
   .number e.cacheCreationTokens, .amount (some e.creditsCharged), .amount revenue,
   .amount (if usage then some e.providerCostMicroCny else none), .text (e.operatorId.getD ""),
   .text (e.reason.getD ""), .text (e.rateCardVersion.getD ""), .text (keyId.getD ""),
   .text money, .amount cash]

def exportLedgerCsv [F64 F] (parse : String → Option Json) (entries : List (LedgerEntry F))
    (names : Table String String) (s : BillingSettings F) : String :=
  entries.foldl (fun csv e => csv ++ csvRow (ledgerColumns parse names s e))
    (Csv.line ledgerHeader)

structure GeneratedCard where
  rawCode : String
  card    : Card

def cardHeader : List String := [
  "id", "raw_code", "code_hash", "template_id", "group_id", "credit_total", "status", "note",
  "created_at"]

def cardColumns (g : GeneratedCard) : List Column :=
  [.bare g.card.id, .bare g.rawCode, .bare g.card.codeHash, .bare (g.card.templateId.getD ""),
   .bare g.card.groupId, .number g.card.creditTotal.val, .bare g.card.status.encoded,
   .quoted (g.card.note.getD ""), .number g.card.createdAt]

def exportCsv (cards : List GeneratedCard) : String :=
  cards.foldl (fun csv g => csv ++ csvRow (cardColumns g)) (Csv.line cardHeader)

-- What the readers of a table rely on.
structure ReadsBack (csv : String) (header : List String) (rows : List (List Column)) : Prop where
  parsed  : Csv.parse csv = some (header :: rows.map (·.map Column.read))
  width   : ∀ row ∈ rows, row.length = header.length
  texts   : ∀ row ∈ rows, ∀ c ∈ row, c.isText → ¬beginsFormula c.read
  amounts : ∀ row ∈ rows, ∀ m, .amount (some m) ∈ row →
    Decimal.value? (Column.amount (some m)).read = some (m.val / 1000000 : ℚ)

section Columns

variable {s : String} {c : Column}

theorem not_beginsFormula_inert (s : String) : ¬beginsFormula (inert s) := by
  unfold inert
  split
  case isTrue => simp [beginsFormula]
  case isFalse h => exact h

theorem inert_eq_iff : inert s = s ↔ ¬beginsFormula s := by
  unfold inert
  split
  case isTrue h =>
    simp only [h, not_true_eq_false, iff_false]
    intro he
    have hl := congrArg (String.length) he
    simp at hl
  case isFalse h => simp [h]

theorem length_le_inert (s : String) : s.toList.length ≤ (inert s).toList.length := by
  unfold inert
  split <;> simp

theorem inert_of_quote (h : s.toList.head? = some '"') : inert s = s := by
  rw [inert_eq_iff, beginsFormula, h]
  decide

-- When a column is read as what it's to be read as.
def Column.Good : Column → Prop
  | .quoted s => inert s = s
  | .bare s   => (∀ c ∈ s.toList, Csv.isText c) ∧ inert s = s
  | _         => True

def Column.cell (c : Column) : Csv.Cell := ⟨c.written, c.read, c.Good⟩

theorem isText_isDigit {c : Char} (h : c.isDigit) : Csv.isText c := by
  rw [Csv.isText_iff]
  refine ⟨?_, ?_, ?_, ?_⟩
  all_goals
    intro hc
    subst hc
    revert h
    decide

theorem isText_nat (n : Nat) : ∀ c ∈ (toString n).toList, Csv.isText c := by
  intro c hc
  rw [Decimal.toList_toString] at hc
  exact isText_isDigit <| Decimal.isDigit_toDigits c hc

theorem isText_number (n : Int) : ∀ c ∈ (toString n).toList, Csv.isText c := by
  cases n
  case ofNat n => exact isText_nat n
  case negSucc n =>
    have h : toString (Int.negSucc n) = "-" ++ toString (n + 1) := rfl
    intro c hc
    rw [h, String.toList_append, List.mem_append] at hc
    obtain hc | hc := hc
    · have hc : c = '-' := by simpa using hc
      subst hc
      rfl
    · exact isText_nat _ c hc

theorem isText_amount (m : Int) : ∀ c ∈ (Text.microDecimal m).toList, Csv.isText c := by
  have hs : ∀ c ∈ (if m < 0 then "-" else "").toList, Csv.isText c := by
    intro c hc
    split at hc
    case isTrue =>
      have hc : c = '-' := by simpa using hc
      subst hc
      rfl
    case isFalse => exact absurd hc List.not_mem_nil
  have hz (n : Nat) : ∀ c ∈ (Text.padded 6 n).toList, Csv.isText c := by
    intro c hc
    simp only [Text.padded, String.toList_append, String.toList_ofList, List.mem_append] at hc
    obtain hc | hc := hc
    · rw [List.eq_of_mem_replicate hc]
      rfl
    · exact isText_nat n c hc
  intro c hc
  unfold Text.microDecimal at hc
  extract_lets sign whole fraction digits at hc
  split at hc
  case isTrue =>
    rw [String.toList_append, List.mem_append] at hc
    exact hc.elim (hs c) (isText_nat _ c)
  case isFalse =>
    simp only [String.toList_append, String.toList_ofList, List.mem_append] at hc
    obtain ((hc | hc) | hc) | hc := hc
    · exact hs c hc
    · exact isText_nat _ c hc
    · have hc : c = '.' := by simpa using hc
      subst hc
      rfl
    · have hd := (List.dropWhile_sublist _).subset (List.mem_reverse.mp hc)
      exact hz _ c (List.mem_reverse.mp hd)

-- A column without text is written in plain digits.
theorem isText_written (h : c.isText = false) : ∀ x ∈ c.written.toList, Csv.isText x := by
  cases c
  case number n => exact isText_number n
  case amount m =>
    cases m
    case none => exact fun _ h => absurd h List.not_mem_nil
    case some m => exact isText_amount m.val
  all_goals cases h

theorem lawful_cell (c : Column) : c.cell.Lawful := by
  cases c
  case text s =>
    have hq : (csvText s).toList = Csv.quote (inert s).toList := by
      simp [csvText, doubleQuotes, Csv.quote]
    have h := Csv.lawful_quoted hq (inert s)
    rwa [eq_self] at h
  case quoted s =>
    have hq : ("\"" ++ doubleQuotes s ++ "\"").toList = Csv.quote s.toList := by
      simp [doubleQuotes, Csv.quote]
    exact Csv.lawful_quoted hq (inert s)
  case bare s => exact Csv.lawful_raw (length_le_inert s) inert_of_quote
  case number n => exact Csv.lawful_plain (isText_written rfl)
  case amount m => exact Csv.lawful_plain (isText_written rfl)

theorem toList_exported (items : List α) (row : α → List Column) (csv : String) :
    (items.foldl (fun csv a => csv ++ csvRow (row a)) csv).toList =
      csv.toList ++ items.flatMap fun a => (csvRow (row a)).toList := by
  induction items generalizing csv
  case nil => simp
  case cons a items hi => simp [hi]

-- A table of rows that end in a number reads back exactly if all its columns do.
theorem parse_exported (items : List α) (init : α → List Column) (last : α → Column)
    (header : List String) (final : String) (hl : ∀ a, (last a).isText = false)
    (hh : ∀ h ∈ header ++ [final], ∀ c ∈ h.toList, Csv.isText c) :
    Csv.parse (items.foldl (fun csv a => csv ++ csvRow (init a ++ [last a]))
        (Csv.line (header ++ [final]))) =
      some ((header ++ [final]) :: items.map fun a => (init a ++ [last a]).map Column.read) ↔
    ∀ a ∈ items, ∀ c ∈ init a, c.Good := by
  have hr (a : α) : (last a).read = (last a).written := by
    have h := hl a
    cases hc : last a <;> simp [hc, Column.isText] at h <;> rfl
  let lines : List (List Csv.Cell × String) :=
    (header.map fun h => ⟨h, h, True⟩, final) ::
      items.map fun a => ((init a).map Column.cell, (last a).written)
  have hw : ∀ l ∈ lines, (∀ c ∈ l.1, c.Lawful) ∧ ∀ c ∈ l.2.toList, Csv.isText c := by
    simp only [lines, List.forall_mem_cons, List.forall_mem_map]
    refine ⟨⟨fun h hm => ?_, hh final (by simp)⟩, fun a _ => ⟨fun c _ => lawful_cell c, ?_⟩⟩
    · exact Csv.lawful_plain (hh h (by simp [hm]))
    · exact isText_written (hl a)
  have h := Csv.parse_lines hw
  rw [Csv.parse, toList_exported]
  have he : (Csv.line (header ++ [final])).toList ++
      items.flatMap (fun a => (csvRow (init a ++ [last a])).toList) =
      lines.flatMap fun l => (Csv.line (l.1.map (·.written) ++ [l.2])).toList := by
    simp [lines, List.flatMap_cons, List.flatMap_map, csvRow, Column.cell, Function.comp_def]
  have hm : (header ++ [final]) :: (items.map fun a => (init a ++ [last a]).map Column.read) =
      lines.map fun l => l.1.map (·.text) ++ [l.2] := by
    simp [lines, Column.cell, Function.comp_def, hr]
  rw [he, hm, h]
  simp [lines, Column.cell]

end Columns

-- A card whose texts are written without quotes and stay what they are.
def Unquoted (s : String) : Prop := (∀ c ∈ s.toList, Csv.isText c) ∧ ¬beginsFormula s

structure GeneratedCard.Plain (g : GeneratedCard) : Prop where
  id         : Unquoted g.card.id
  rawCode    : Unquoted g.rawCode
  codeHash   : Unquoted g.card.codeHash
  templateId : Unquoted (g.card.templateId.getD "")
  groupId    : Unquoted g.card.groupId
  note       : ¬beginsFormula (g.card.note.getD "")

section Tables

variable {F : Type} [F64 F] (parse : String → Option Json) (names : Table String String)
  (s : BillingSettings F)

theorem readsBack_of_parsed {csv : String} {header : List String} {rows : List (List Column)}
    (hp : Csv.parse csv = some (header :: rows.map (·.map Column.read)))
    (hw : ∀ row ∈ rows, row.length = header.length) : ReadsBack csv header rows where
  parsed := hp
  width  := hw
  texts row _ c _ ht := by
    cases c
    case number => cases ht
    case amount => cases ht
    all_goals exact not_beginsFormula_inert _
  amounts _ _ m _ := Decimal.value?_microDecimal m.val

theorem header_plain : ∀ h ∈ ledgerHeader ++ cardHeader, ∀ c ∈ h.toList, Csv.isText c := by
  simp [ledgerHeader, cardHeader, Csv.isText]

theorem ledger_readsBack (entries : List (LedgerEntry F)) :
    ReadsBack (exportLedgerCsv parse entries names s) ledgerHeader
      (entries.map (ledgerColumns parse names s)) := by
  apply readsBack_of_parsed
  case hp =>
    have h := (parse_exported entries (fun e => (ledgerColumns parse names s e).dropLast)
      (fun e => .amount (moneyKind parse e).2) ledgerHeader.dropLast "cash_cny" (fun _ => rfl)
      (fun h hm => header_plain h (List.mem_append_left _ hm))).mpr (fun e _ => by simp [ledgerColumns, Column.Good])
    rw [List.map_map]
    exact h
  case hw =>
    rw [List.forall_mem_map]
    intro e _
    rfl

theorem status_unquoted (status : CardStatus) : Unquoted status.encoded := by
  constructor
  all_goals cases status <;> simp [CardStatus.encoded, Csv.isText, beginsFormula]

theorem cards_readBack_iff (cards : List GeneratedCard) :
    ReadsBack (exportCsv cards) cardHeader (cards.map cardColumns) ↔ ∀ g ∈ cards, g.Plain := by
  have h := parse_exported cards (fun g => (cardColumns g).dropLast)
    (fun g => .number g.card.createdAt) cardHeader.dropLast "created_at" (fun _ => rfl)
    (fun h hm => header_plain h (List.mem_append_right _ hm))
  have hg (g : GeneratedCard) : (∀ c ∈ (cardColumns g).dropLast, c.Good) ↔ g.Plain := by
    simp only [cardColumns, List.dropLast, List.forall_mem_cons, Column.Good, inert_eq_iff]
    constructor
    case mp => exact fun ⟨hi, hr, hc, ht, hg, _, _, hn, _⟩ => ⟨hi, hr, hc, ht, hg, hn⟩
    case mpr =>
      intro h
      exact ⟨h.id, h.rawCode, h.codeHash, h.templateId, h.groupId, trivial,
        status_unquoted g.card.status, h.note, List.forall_mem_nil _⟩
  simp only [hg] at h
  rw [← h]
  constructor
  case mp =>
    intro hr
    have hp := hr.parsed
    rw [List.map_map] at hp
    exact hp
  case mpr =>
    intro hp
    apply readsBack_of_parsed
    case hp =>
      rw [List.map_map]
      exact hp
    case hw =>
      rw [List.forall_mem_map]
      intro g _
      rfl

-- The ledger's table always reads back, the cards' where no text in it needs what it isn't given.
theorem exports_read_back (entries : List (LedgerEntry F)) (cards : List GeneratedCard) :
    ReadsBack (exportLedgerCsv parse entries names s) ledgerHeader
        (entries.map (ledgerColumns parse names s)) ∧
      (ReadsBack (exportCsv cards) cardHeader (cards.map cardColumns) ↔ ∀ g ∈ cards, g.Plain) :=
  ⟨ledger_readsBack parse names s entries, cards_readBack_iff cards⟩

-- A card of a group whose valid name holds a comma.
def GeneratedCard.sample : GeneratedCard where
  rawCode := "kiro-0000-0000-0000-0000-0000-0000-0000-0000"
  card    := { Card.new "card-0123456789abcdef" "vip,1" 1000000 with codeHash := "0123456789abcdef" }

theorem comma_splits : Text.validId GeneratedCard.sample.card.groupId 128 ∧
    ¬ReadsBack (exportCsv [.sample]) cardHeader [cardColumns .sample] := by
  constructor
  case left => decide
  case right =>
    intro h
    have hg := ((cards_readBack_iff [.sample]).mp h .sample (by simp)).groupId
    simp [Unquoted, GeneratedCard.sample, Card.new, Csv.isText] at hg

end Tables

end Billing
