import Superkiro.Lib.Text

-- Tables of text as RFC 4180 has them, where a line may also end in a line feed alone.
namespace Csv

-- What a field can hold that isn't quoted.
def isText (c : Char) : Bool := c ≠ ',' && c ≠ '"' && c ≠ '\n' && c ≠ '\r'

-- Where in a field a reader is.
inductive Place
  | start
  | plain
  | quoted
  | closed
  -- Between the two characters that end a line.
  | ended
  deriving DecidableEq

-- What reading a character leads to.
inductive Step
  | read (p : Place) (field : List Char) (row : List String)
  | line (row : List String)
  | refused

open Place

def step (p : Place) (field : List Char) (row : List String) (c : Char) : Step :=
  if p = quoted then
    if c = '"' then .read closed field row else .read quoted (field ++ [c]) row
  else if p = ended then
    if c = '\n' then .line (row ++ [.ofList field]) else .refused
  else if c = ',' then .read start [] (row ++ [.ofList field])
  else if c = '\n' then .line (row ++ [.ofList field])
  else if c = '\r' then .read ended field row
  else if c = '"' then
    if p = start then .read quoted [] row
    else if p = closed then .read quoted (field ++ ['"']) row
    else .refused
  else if p = closed then .refused
  else .read plain (field ++ [c]) row

-- Reads the rest of a table behind the fields of a row and the start of its next one.
def table (p : Place) (field : List Char) (row : List String) :
    List Char → Option (List (List String))
  | [] =>
    if p = quoted ∨ p = ended then none
    else if p = start ∧ row = [] then some []
    else some [row ++ [.ofList field]]
  | c :: cs =>
    match step p field row c with
    | .read p field row => table p field row cs
    | .line row         => (table start [] [] cs).map (row :: ·)
    | .refused          => none

def parse (s : String) : Option (List (List String)) := table start [] [] s.toList

def escape (cs : List Char) : List Char := cs.flatMap fun c => if c = '"' then ['"', '"'] else [c]

-- A field that stands for any text.
def quote (cs : List Char) : List Char := '"' :: escape cs ++ ['"']

def line (fields : List String) : String := Text.join "," fields ++ "\n"

example : parse "a,\"b,\"\"c\"\r\n,\n" = some [["a", "b,\"c"], ["", ""]] := by decide

variable {p : Place} {f t w : List Char} {row : List String} {rest : List Char}
  {rows : List (List String)} {c : Char}

theorem isText_iff : isText c ↔ c ≠ ',' ∧ c ≠ '"' ∧ c ≠ '\n' ∧ c ≠ '\r' := by
  simp [isText, and_assoc]

theorem step_plain (h : isText c) : step plain f row c = .read plain (f ++ [c]) row := by
  have ⟨hc, hq, hn, hr⟩ := isText_iff.mp h
  simp [step, hc, hq, hn, hr]

theorem table_plain (h : ∀ c ∈ t, isText c) :
    table plain f row (t ++ rest) = table plain (f ++ t) row rest := by
  induction t generalizing f
  case nil => simp
  case cons c t hi =>
    rw [List.forall_mem_cons] at h
    rw [List.append_cons f c t, ← hi h.right, List.cons_append, table, step_plain h.left]

theorem table_quoted :
    table quoted f row (escape t ++ '"' :: rest) = table closed (f ++ t) row rest := by
  induction t generalizing f
  case nil => simp [table, escape, step]
  case cons c t hi =>
    rw [List.append_cons f c t, ← hi]
    by_cases hc : c = '"' <;> simp [table, escape, step, hc]

theorem step_comma (hq : p ≠ quoted) (he : p ≠ ended) :
    step p f row ',' = .read start [] (row ++ [.ofList f]) := by
  simp [step, hq, he]

theorem step_newline (hq : p ≠ quoted) (he : p ≠ ended) :
    step p f row '\n' = .line (row ++ [.ofList f]) := by
  simp [step, hq, he]

theorem table_comma (hq : p ≠ quoted) (he : p ≠ ended) :
    table p f row (',' :: rest) = table start [] (row ++ [.ofList f]) rest := by
  rw [table, step_comma hq he]

theorem table_newline (hq : p ≠ quoted) (he : p ≠ ended) :
    table p f row ('\n' :: rest) = (table start [] [] rest).map ((row ++ [.ofList f]) :: ·) := by
  rw [table, step_newline hq he]

theorem table_run (h : ∀ c ∈ t, isText c) (hn : t ≠ []) :
    table start [] row (t ++ rest) = table plain t row rest := by
  cases t
  case nil => exact absurd rfl hn
  case cons c t =>
    rw [List.forall_mem_cons] at h
    have ⟨hc, hq, hl, hr⟩ := isText_iff.mp h.left
    have hs : step start [] row c = .read plain [c] row := by simp [step, hc, hq, hl, hr]
    rw [List.cons_append, table, hs]
    exact table_plain h.right

theorem table_unquoted (h : ∀ c ∈ t, isText c) :
    table start [] row (t ++ ',' :: rest) = table start [] (row ++ [.ofList t]) rest := by
  by_cases hn : t = []
  case pos =>
    subst hn
    exact table_comma nofun nofun
  case neg =>
    rw [table_run h hn]
    exact table_comma nofun nofun

theorem table_last (h : ∀ c ∈ t, isText c) : table start [] row (t ++ '\n' :: rest) =
    (table start [] [] rest).map ((row ++ [.ofList t]) :: ·) := by
  by_cases hn : t = []
  case pos =>
    subst hn
    exact table_newline nofun nofun
  case neg =>
    rw [table_run h hn]
    exact table_newline nofun nofun

theorem table_quote (t : List Char) (rest : List Char) :
    table start [] row (quote t ++ ',' :: rest) = table start [] (row ++ [.ofList t]) rest := by
  have h : table start [] row (quote t ++ ',' :: rest) =
      table quoted [] row (escape t ++ '"' :: ',' :: rest) := by
    simp [quote, table, step]
  rw [h, table_quoted, List.nil_append]
  exact table_comma nofun nofun

theorem step_cases {p' : Place} {f' : List Char} {row' : List String}
    (h : step p f row c = .read p' f' row') :
    (p' ≠ start ∧ row' = row ∧ (p ≠ start → f <+: f')) ∨
      (p ≠ quoted ∧ p' = start ∧ row' = row ++ [.ofList f]) := by
  simp only [step] at h
  split_ifs at h
  all_goals cases h
  all_goals simp_all

theorem step_line {row' : List String} (h : step p f row c = .line row') :
    row' = row ++ [.ofList f] := by
  simp only [step] at h
  split_ifs at h
  all_goals cases h
  all_goals rfl

-- What was read stays, and what was read of a field is how the field starts.
theorem table_extends {res : List (List String)} (h : table p f row rest = some res)
    (hp : p ≠ start ∨ row ≠ []) : ∃ ts rows, res = (row ++ ts) :: rows ∧
      (p ≠ start → ∃ t, ts.head? = some t ∧ f <+: t.toList) := by
  induction rest generalizing p f row
  case nil =>
    rw [table] at h
    split_ifs at h with _ hs
    · exact absurd hs (not_and_or.mpr hp)
    · cases h
      exact ⟨_, _, rfl, fun _ => ⟨_, rfl, by simp⟩⟩
  case cons c cs hi =>
    rw [table] at h
    split at h
    case h_1 p' f' row' hs =>
      obtain ⟨hp', hr, hf⟩ | ⟨_, hp', hr⟩ := step_cases hs
      · subst hr
        have ⟨ts, rows, hres, ht⟩ := hi h (.inl hp')
        have ⟨t, hh, hft⟩ := ht hp'
        exact ⟨ts, rows, hres, fun hps => ⟨t, hh, (hf hps).trans hft⟩⟩
      · subst hp' hr
        have ⟨ts, rows, hres, _⟩ := hi h (.inr (by simp))
        exact ⟨.ofList f :: ts, rows, by simp [hres], fun _ => ⟨_, rfl, by simp⟩⟩
    case h_2 row' hs =>
      have ⟨rows, _, hres⟩ := Option.map_eq_some_iff.mp h
      exact ⟨[.ofList f], rows, by rw [← hres, step_line hs], fun _ => ⟨_, rfl, by simp⟩⟩
    case h_3 => cases h

section Converse

variable {s : String} {ts : List String} {cs : List Char}

theorem first_of_extends {res : List String} (h : res :: rows' = (row ++ s :: ts) :: rows)
    (he : res = row ++ u :: us) : s = u := by
  have hr : row ++ s :: ts = row ++ u :: us := (List.cons.inj h).left.symm.trans he
  exact (List.cons.inj (List.append_cancel_left hr)).left

-- A field ends where its line or the field next to it starts.
theorem field_of_end (hc : c = ',' ∨ c = '\n' ∨ c = '\r') (hq : p ≠ quoted) (he : p ≠ ended)
    (h : table p f row (c :: cs) = some ((row ++ s :: ts) :: rows)) : s = .ofList f := by
  obtain hc | hc | hc := hc
  all_goals subst hc
  · rw [table_comma hq he] at h
    have ⟨us, _, hr, _⟩ := table_extends h (.inr (by simp))
    exact first_of_extends hr.symm (List.append_assoc _ _ _)
  · rw [table_newline hq he] at h
    have ⟨_, _, hr⟩ := Option.map_eq_some_iff.mp h
    exact first_of_extends hr rfl
  · have hs : step p f row '\r' = .read ended f row := by simp [step, hq, he]
    rw [table, hs] at h
    cases cs
    case nil => simp [table] at h
    case cons c cs =>
      by_cases hc : c = '\n'
      case pos =>
        simp only [table, step, hc, reduceCtorEq, if_true, if_false] at h
        have ⟨_, _, hr⟩ := Option.map_eq_some_iff.mp h
        exact first_of_extends hr rfl
      case neg => simp [table, step, hc] at h

-- What is read behind a quote isn't the same text with more quotes in front of it.
theorem quoted_ne (n : Nat) (f : List Char)
    (h : table quoted f row (w ++ ',' :: rest) = some ((row ++ s :: ts) :: rows)) :
    s.toList ≠ f ++ (List.replicate (n + 1) '"' ++ w) := by
  induction hw : w.length using Nat.strong_induction_on generalizing w f n
  case h hi =>
    intro hs
    have other {c : Char} {cs : List Char} (hc : c ≠ '"')
        (h : table quoted f row (c :: cs) = some ((row ++ s :: ts) :: rows)) : False := by
      have hst : step quoted f row c = .read quoted (f ++ [c]) row := by simp [step, hc]
      rw [table, hst] at h
      have ⟨us, _, hr, hu⟩ := table_extends h (.inl nofun)
      have ⟨u, hh, hp⟩ := hu nofun
      have ⟨us, hus⟩ := List.head?_eq_some_iff.mp hh
      have hsu : s = u := first_of_extends hr.symm (by rw [hus])
      rw [← hsu, hs] at hp
      have hp := (List.prefix_append_right_inj f).mp hp
      simp [List.replicate_succ, hc] at hp
    have ended {c : Char} {cs : List Char} (hc : c = ',' ∨ c = '\n' ∨ c = '\r')
        (h : table closed f row (c :: cs) = some ((row ++ s :: ts) :: rows)) : False := by
      have hf : s = .ofList f := field_of_end hc (by decide) (by decide) h
      rw [hf, String.toList_ofList] at hs
      simpa using congrArg List.length hs
    rcases w with _ | ⟨c, _ | ⟨d, w⟩⟩
    · exact other (by decide) h
    · by_cases hc : c = '"'
      case neg => exact other hc h
      case pos =>
        subst hc
        exact ended (.inl rfl) h
    · by_cases hc : c = '"'
      case neg => exact other hc h
      case pos =>
        subst hc
        have h : table closed f row (d :: (w ++ ',' :: rest)) = some ((row ++ s :: ts) :: rows) := h
        by_cases hd : d = '"'
        case pos =>
          -- Two quotes stand for one, so the quotes in front grow by one.
          subst hd
          have h : table quoted (f ++ ['"']) row (w ++ ',' :: rest) =
              some ((row ++ s :: ts) :: rows) := h
          apply hi w.length (by simp [← hw]) (n + 1) _ h rfl
          have hr : List.replicate (n + 1) '"' ++ ['"', '"'] = '"' :: List.replicate (n + 2) '"' := by
            have := List.replicate_append_replicate (n := n + 1) (m := 2) (a := '"')
            rw [← List.replicate_succ, ← this]
            rfl
          have hr := congrArg (· ++ w) hr
          simp only [List.append_assoc, List.cons_append, List.nil_append] at hr
          simp [hs, hr]
        case neg =>
          by_cases hc : d = ',' ∨ d = '\n' ∨ d = '\r'
          case pos => exact ended hc h
          case neg =>
            have ⟨hc, hl, hr⟩ : d ≠ ',' ∧ d ≠ '\n' ∧ d ≠ '\r' := by simpa using hc
            simp [table, step, hd, hc, hl, hr] at h

-- A text that isn't quoted is read as itself, or not in full.
theorem text_of_table
    (h : table start [] row (w ++ ',' :: rest) = some ((row ++ s :: ts) :: rows))
    (hl : w.length ≤ s.toList.length) (hq : w.head? = some '"' → s.toList = w) :
    (∀ c ∈ w, isText c) ∧ s = .ofList w := by
  by_cases ht : ∀ c ∈ w, isText c
  case pos =>
    rw [table_unquoted ht] at h
    have ⟨us, _, hr, _⟩ := table_extends h (.inr (by simp))
    exact ⟨ht, first_of_extends hr.symm (List.append_assoc _ _ _)⟩
  case neg =>
    exfalso
    have ⟨a, c, b, hw, ha, hc⟩ : ∃ a c b, w = a ++ c :: b ∧ (∀ x ∈ a, isText x) ∧ ¬isText c := by
      have hd : w.dropWhile isText ≠ [] := by
        intro hd
        exact ht <| List.dropWhile_eq_nil_iff.mp hd
      have ⟨c, b, hb⟩ := List.exists_cons_of_ne_nil hd
      refine ⟨w.takeWhile isText, c, b, ?_, fun x hx => List.mem_takeWhile_imp hx, ?_⟩
      · rw [← hb, List.takeWhile_append_dropWhile]
      · have hn := List.head_dropWhile_not isText hd
        simp only [hb, List.head_cons] at hn
        simp [hn]
    subst hw
    by_cases he : c = ',' ∨ c = '\n' ∨ c = '\r'
    case pos =>
      have hs : s = .ofList a := by
        by_cases hn : a = []
        case pos =>
          subst hn
          exact field_of_end he (by decide) (by decide) h
        case neg =>
          rw [List.append_assoc, table_run ha hn] at h
          exact field_of_end he (by decide) (by decide) h
      rw [hs, String.toList_ofList] at hl
      simp at hl
    case neg =>
      have hc : c = '"' := by
        by_contra hq
        have := isText_iff.mpr ⟨fun h => he (.inl h), hq, fun h => he (.inr (.inl h)),
          fun h => he (.inr (.inr h))⟩
        exact hc this
      subst hc
      cases a
      case nil =>
        have h : table quoted [] row (b ++ ',' :: rest) = some ((row ++ s :: ts) :: rows) := h
        exact quoted_ne 0 [] h (hq rfl)
      case cons =>
        rw [List.append_assoc, table_run ha (by simp)] at h
        cases h

end Converse

-- A field as it is written, the text it is to stand for, and when it does.
structure Cell where
  written : String
  text    : String
  good    : Prop

def Cell.Lawful (c : Cell) : Prop := ∀ row rest ts rows,
  table start [] row (c.written.toList ++ ',' :: rest) = some ((row ++ c.text :: ts) :: rows) ↔
    c.good ∧ table start [] (row ++ [c.text]) rest = some ((row ++ c.text :: ts) :: rows)

section Cells

variable {s u : String} {last : String} {cells : List Cell} {lines : List (List Cell × String)}

theorem lawful_plain (h : ∀ c ∈ s.toList, isText c) : Cell.Lawful ⟨s, s, True⟩ := by
  intro row rest ts rows
  rw [table_unquoted h, String.ofList_toList]
  simp

theorem lawful_quoted (h : s.toList = quote u.toList) (t : String) :
    Cell.Lawful ⟨s, t, t = u⟩ := by
  intro row rest ts rows
  simp only [h, table_quote, String.ofList_toList]
  constructor
  case mp =>
    intro h
    have ⟨us, _, hr, _⟩ := table_extends h (.inr (by simp))
    have ht : t = u := first_of_extends hr.symm (List.append_assoc _ _ _)
    exact ⟨ht, ht ▸ h⟩
  case mpr =>
    intro ⟨ht, h⟩
    exact ht ▸ h

-- A text that isn't quoted is good if it needn't be.
theorem lawful_raw {t : String} (hl : s.toList.length ≤ t.toList.length)
    (hq : s.toList.head? = some '"' → t = s) :
    Cell.Lawful ⟨s, t, (∀ c ∈ s.toList, isText c) ∧ t = s⟩ := by
  intro row rest ts rows
  constructor
  case mp =>
    intro h
    have ⟨hc, ht⟩ := text_of_table h hl fun hh => congrArg String.toList (hq hh)
    rw [String.ofList_toList] at ht
    refine ⟨⟨hc, ht⟩, ?_⟩
    rw [table_unquoted hc, String.ofList_toList] at h
    rwa [ht] at h ⊢
  case mpr =>
    intro ⟨⟨hc, ht⟩, h⟩
    rw [table_unquoted hc, String.ofList_toList]
    rwa [ht] at h ⊢

theorem toList_join (first : String) (fields : List String) :
    (Text.join "," (first :: fields)).toList =
      first.toList ++ fields.flatMap fun f => ',' :: f.toList := by
  rw [Text.join]
  induction fields generalizing first
  case nil => simp
  case cons f fields hi => simp [hi]

theorem toList_line (fields : List String) (last : String) :
    (line (fields ++ [last])).toList =
      fields.flatMap (fun f => f.toList ++ [',']) ++ last.toList ++ ['\n'] := by
  cases fields
  case nil => simp [line, Text.join]
  case cons first fields =>
    rw [List.cons_append, line, String.toList_append, toList_join]
    have h : (fields ++ [last]).flatMap (fun f => ',' :: f.toList) =
        ',' :: (fields.flatMap (fun f => f.toList ++ [',']) ++ last.toList) := by
      induction fields
      case nil => simp
      case cons f fields hi => simp [hi]
    rw [h]
    simp

theorem table_line (row : List String) (hc : ∀ c ∈ cells, c.Lawful) (hl : ∀ c ∈ last.toList, isText c) :
    table start [] row ((line (cells.map (·.written) ++ [last])).toList ++ rest) =
        some ((row ++ (cells.map (·.text) ++ [last])) :: rows) ↔
      (∀ c ∈ cells, c.good) ∧ table start [] [] rest = some rows := by
  rw [toList_line]
  induction cells generalizing row
  case nil =>
    have h : table start [] row (last.toList ++ '\n' :: rest) = _ := table_last hl
    simp only [List.map_nil, List.flatMap_nil, List.nil_append, List.append_assoc]
    rw [show last.toList ++ (['\n'] ++ rest) = last.toList ++ '\n' :: rest from rfl, h,
      String.ofList_toList]
    simp
  case cons c cells hi =>
    rw [List.forall_mem_cons] at hc
    rw [List.forall_mem_cons, and_assoc, ← hi (row ++ [c.text]) hc.right]
    have h := hc.left row (cells.flatMap (fun c => c.written.toList ++ [',']) ++ last.toList ++
      ['\n'] ++ rest) (cells.map (·.text) ++ [last]) rows
    simpa [List.flatMap_map] using h

-- A table reads back exactly if each of its fields does.
theorem parse_lines (h : ∀ l ∈ lines, (∀ c ∈ l.1, c.Lawful) ∧ ∀ c ∈ l.2.toList, isText c) :
    table start [] [] (lines.flatMap fun l => (line (l.1.map (·.written) ++ [l.2])).toList) =
        some (lines.map fun l => l.1.map (·.text) ++ [l.2]) ↔
      ∀ l ∈ lines, ∀ c ∈ l.1, c.good := by
  induction lines
  case nil => simp [table]
  case cons l lines hi =>
    rw [List.forall_mem_cons] at h ⊢
    rw [← hi h.right, List.flatMap_cons, List.map_cons]
    exact table_line [] h.left.left h.left.right

end Cells

end Csv
