import Superkiro.Billing.CardLife
import Superkiro.Lib.Trimmed

-- Notes of cards that are banned and then unbanned.
namespace Billing

open Except Host Text
open Tables (noteWith banReasonLength stripBans withoutBanPrefixes)

-- What a ban puts before its reason.
def banMarker : List Char := "[BANNED: ".toList

-- A text that isn't taken for one with a ban before it.
def Unmarked (bans : List (List Char)) (text : List Char) : Prop :=
  ∀ after, text = banMarker ++ after → banReasonLength after bans = none

-- The reasons that are found again before the rest of a note. A reason ends where the longest one that's
-- remembered does, or at its first bracket. It may read like several bans, one after another.
inductive StripsBack (bans : List (List Char)) (rest : List Char) : List Char → Prop
  | whole : banReasonLength (reason ++ ']' :: rest) bans = some reason.length →
    StripsBack bans rest reason
  | split : banReasonLength (reason ++ ']' :: rest) bans = some n → n < reason.length →
    trimStart (reason.drop (n + 1)) = banMarker ++ later → StripsBack bans rest later →
    StripsBack bans rest reason

variable {bans : List (List Char)} {after text rest reason later : List Char} {n fuel : Nat}

theorem banMarker_eq : banMarker = ['[', 'B', 'A', 'N', 'N', 'E', 'D', ':', ' '] :=
  String.toList_ofList

theorem banReasonLength_bracket (h : banReasonLength after bans = some n) :
    ∃ tail, after.drop n = ']' :: tail := by
  rw [banReasonLength] at h
  split at h
  case h_1 m hm =>
    cases h
    have ⟨ban, hb, hl⟩ := List.mem_map.mp (List.max?_mem hm)
    have hb := (List.mem_filter.mp hb).right
    simp only [Bool.and_eq_true] at hb
    rw [← hl]
    exact List.head?_eq_some_iff.mp (of_decide_eq_true hb.right)
  case h_2 =>
    have ⟨hlt, hn, _⟩ := List.findIdx?_eq_some_iff_getElem.mp h
    rw [List.drop_eq_getElem_cons hlt]
    exact ⟨_, by rw [of_decide_eq_true hn]⟩

theorem banReasonLength_isSome (h : ']' ∈ after) : ∃ n, banReasonLength after bans = some n := by
  rw [banReasonLength]
  split
  case h_1 m _ => exact ⟨m, rfl⟩
  case h_2 =>
    apply Option.isSome_iff_exists.mp
    rw [List.findIdx?_isSome, List.any_eq_true]
    exact ⟨_, h, by decide⟩

theorem dropPrefix?_marker : text.dropPrefix? banMarker = some after ↔ text = banMarker ++ after := by
  simp [List.dropPrefix?_eq_some_iff]

theorem stripBans_succ : stripBans bans (fuel + 1) text =
    match text.dropPrefix? banMarker with
    | none       => text
    | some after =>
      match banReasonLength after bans with
      | none   => text
      | some n => stripBans bans fuel (trimStart (after.drop (n + 1))) :=
  rfl

theorem stripBans_unmarked (h : Unmarked bans text) : stripBans bans fuel text = text := by
  cases fuel
  case zero => rfl
  case succ fuel =>
    rw [stripBans_succ]
    split
    case h_1 => rfl
    case h_2 after hd =>
      rw [h after (dropPrefix?_marker.mp hd)]

theorem stripBans_marked (h : banReasonLength after bans = some n) :
    stripBans bans (fuel + 1) (banMarker ++ after) =
      stripBans bans fuel (trimStart (after.drop (n + 1))) := by
  rw [stripBans_succ, dropPrefix?_marker.mpr rfl]
  simp only [h]

-- What's left is what the text ends with.
theorem stripBans_suffix : stripBans bans fuel text <:+ text := by
  induction fuel generalizing text
  case zero => exact List.suffix_refl _
  case succ fuel hi =>
    rw [stripBans_succ]
    split
    case h_1 => exact List.suffix_refl _
    case h_2 after hd =>
      split
      case h_1 => exact List.suffix_refl _
      case h_2 n _ =>
        rw [dropPrefix?_marker.mp hd]
        exact ((hi.trans trimStart_suffix).trans (List.drop_suffix _ _)).trans (List.suffix_append _ _)

theorem stripBans_start (h : trimStart text = text) :
    trimStart (stripBans bans fuel text) = stripBans bans fuel text := by
  induction fuel generalizing text
  case zero => exact h
  case succ fuel hi =>
    rw [stripBans_succ]
    split
    case h_1 => exact h
    case h_2 after hd =>
      split
      case h_1 => exact h
      case h_2 n _ => exact hi trimStart_trimStart

theorem stripBans_trimmed (h : Trimmed text) : Trimmed (stripBans bans fuel text) :=
  ⟨stripBans_start h.start, trimEnd_of_suffix h.stop stripBans_suffix⟩

-- A text is left as it is if and only if it isn't taken for one with a ban before it.
theorem stripBans_eq_self_iff (h : text.length ≤ fuel) :
    stripBans bans fuel text = text ↔ Unmarked bans text := by
  constructor
  case mpr => exact stripBans_unmarked
  case mp =>
    rintro he after rfl
    by_contra hn
    have ⟨n, hn⟩ := Option.ne_none_iff_exists'.mp hn
    cases fuel
    case zero => simp [banMarker_eq] at h
    case succ fuel =>
      rw [stripBans_marked hn] at he
      have hl := congrArg List.length he
      have hb : stripBans bans fuel (trimStart (after.drop (n + 1))) <:+
        trimStart (after.drop (n + 1)) := stripBans_suffix
      have hs := hb.length_le
      have ht := (trimStart_suffix (l := after.drop (n + 1))).length_le
      have hm : 0 < banMarker.length := by simp [banMarker_eq]
      simp only [List.length_append, List.length_drop] at hl ht
      omega

-- The text after a bracket is shorter than the one that the bracket is part of.
theorem length_trimStart_bracket : text.length < (trimStart (later ++ ']' :: text)).length := by
  rw [trimStart_append (by decide), List.length_append, List.length_cons]
  omega

-- A reason that isn't followed by another marker leaves its end to the note.
theorem stripBans_within (hn : n < reason.length) :
    trimStart ((reason ++ ']' :: rest).drop (n + 1)) = trimStart (reason.drop (n + 1)) ++ ']' :: rest := by
  rw [List.drop_append_of_le_length hn, trimStart_append (by decide)]

theorem marker_within (h : later ++ ']' :: rest = banMarker ++ after) :
    ∃ reason', later = banMarker ++ reason' ∧ after = reason' ++ ']' :: rest := by
  rw [List.append_eq_append_iff] at h
  cases h
  case inl h =>
    have ⟨m, hm, hr⟩ := h
    cases m
    case nil => exact ⟨[], by simpa using hm.symm, by simpa using hr.symm⟩
    case cons c m =>
      cases hr
      have hb : ']' ∈ banMarker := hm ▸ List.mem_append_right _ List.mem_cons_self
      simp [banMarker_eq] at hb
  case inr h =>
    have ⟨m, hm, hr⟩ := h
    exact ⟨m, hm, hr⟩

theorem StripsBack.cases_eq (h : StripsBack bans rest reason)
    (hn : banReasonLength (reason ++ ']' :: rest) bans = some n) : n = reason.length ∨
      n < reason.length ∧ ∃ later, trimStart (reason.drop (n + 1)) = banMarker ++ later ∧
        StripsBack bans rest later := by
  cases h
  case whole h =>
    cases hn.symm.trans h
    exact .inl rfl
  case split m later hr hm hlt ht =>
    cases hn.symm.trans hm
    exact .inr ⟨hlt, later, ht, hr⟩

-- What's left of a banned card's note is the note itself if and only if the reason is found again and
-- nothing else is taken for a ban's.
theorem stripBans_eq_iff (hf : (banMarker ++ (reason ++ ']' :: rest)).length ≤ fuel) :
    stripBans bans fuel (banMarker ++ (reason ++ ']' :: rest)) = trimStart rest ↔
      StripsBack bans rest reason ∧ Unmarked bans (trimStart rest) := by
  induction fuel generalizing reason
  case zero => simp [banMarker_eq] at hf
  case succ fuel hi =>
    have ⟨n, hn⟩ : ∃ n, banReasonLength (reason ++ ']' :: rest) bans = some n :=
      banReasonLength_isSome (List.mem_append_right _ List.mem_cons_self)
    have hm : banMarker.length = 9 := by rw [banMarker_eq]; rfl
    simp only [List.length_append, List.length_cons, hm] at hf
    have hs := (trimStart_suffix (l := rest)).length_le
    rw [stripBans_marked hn]
    obtain hlt | heq | hgt := Nat.lt_trichotomy n reason.length
    case inl =>
      -- the reason is cut at a bracket of its own
      rw [stripBans_within hlt]
      by_cases hl : ∃ later, trimStart (reason.drop (n + 1)) = banMarker ++ later
      case pos =>
        have ⟨later, hl⟩ := hl
        have hd := (trimStart_suffix (l := reason.drop (n + 1))).length_le
        rw [hl, List.length_append, List.length_drop, hm] at hd
        rw [hl, List.append_assoc, hi (by simp only [List.length_append, List.length_cons, hm]; omega)]
        refine and_congr_left fun _ => ⟨.split hn hlt hl, fun h => ?_⟩
        cases h.cases_eq hn
        case inl he => exact absurd he hlt.ne
        case inr h =>
          have ⟨_, later', hl', h⟩ := h
          cases List.append_cancel_left (hl.symm.trans hl')
          exact h
      case neg =>
        have hu : Unmarked bans (trimStart (reason.drop (n + 1)) ++ ']' :: rest) := by
          intro after ha
          have ⟨later, hl', _⟩ := marker_within ha
          exact absurd ⟨later, hl'⟩ hl
        rw [stripBans_unmarked hu]
        refine iff_of_false (fun he => ?_) fun h => ?_
        · have := congrArg List.length he
          simp only [List.length_append, List.length_cons] at this
          omega
        · cases h.left.cases_eq hn
          case inl he => exact absurd he hlt.ne
          case inr h =>
            have ⟨_, later, hl', _⟩ := h
            exact hl ⟨later, hl'⟩
    case inr.inl =>
      subst heq
      rw [List.drop_append, Nat.add_sub_cancel_left, List.drop_eq_nil_of_le (Nat.le_succ _),
        List.nil_append, List.drop_succ_cons, List.drop_zero, stripBans_eq_self_iff (by omega)]
      exact (and_iff_right (.whole hn)).symm
    case inr.inr =>
      -- a longer reason that's remembered takes some of the note
      refine iff_of_false (fun he => ?_) fun h => ?_
      · have ⟨tail, ht⟩ := banReasonLength_bracket hn
        have hk : n - reason.length = n - reason.length - 1 + 1 := by omega
        rw [List.drop_append, List.drop_eq_nil_of_le hgt.le, List.nil_append, hk,
          List.drop_succ_cons] at ht
        have hd : (reason ++ ']' :: rest).drop (n + 1) = tail := by
          rw [List.drop_append, List.drop_eq_nil_of_le (by omega), List.nil_append,
            show n + 1 - reason.length = n - reason.length - 1 + 1 + 1 by omega, List.drop_succ_cons,
            ← List.drop_drop, ht]
          rfl
        have hrest : rest = rest.take (n - reason.length - 1) ++ ']' :: tail := by
          rw [← ht, List.take_append_drop]
        have hlen : tail.length <
          (trimStart (rest.take (n - reason.length - 1) ++ ']' :: tail)).length :=
            length_trimStart_bracket
        rw [← hrest, ← he, hd] at hlen
        have hs : stripBans bans fuel (trimStart tail) <:+ trimStart tail := stripBans_suffix
        have hsuf := hs.trans trimStart_suffix
        exact absurd hsuf.length_le (Nat.not_le_of_lt hlen)
      · cases h.left.cases_eq hn
        case inl he => exact absurd he hgt.ne'
        case inr h => exact absurd h.left (Nat.lt_asymm hgt)

-- A note as it follows a ban's reason.
def afterReason (note : String) : List Char := trimEnd (' ' :: note.toList)

theorem trimStart_afterReason (note : String) :
    trimStart (afterReason note) = (Text.trim note).toList := by
  rw [afterReason, trimStart_trimEnd, Text.trim, String.toList_ofList]
  rfl

theorem noteWith_toList (reason : String) (note : Option String) :
    ∃ s, noteWith "BANNED" reason note = some s ∧
      s.toList = banMarker ++ (reason.toList ++ ']' :: afterReason (note.getD "")) := by
  refine ⟨_, rfl, ?_⟩
  have h₁ : "[".toList = ['['] := String.toList_ofList
  have h₂ : "BANNED".toList = ['B', 'A', 'N', 'N', 'E', 'D'] := String.toList_ofList
  have h₃ : ": ".toList = [':', ' '] := String.toList_ofList
  have h₄ : "] ".toList = [']', ' '] := String.toList_ofList
  rw [Text.trim, String.toList_ofList]
  simp only [String.toList_append, h₁, h₂, h₃, h₄, List.cons_append, List.nil_append,
    List.append_assoc]
  have h := trimEnd_append (l := banMarker ++ reason.toList) (c := ']')
    (r := ' ' :: (note.getD "").toList) (by decide)
  rw [banMarker_eq] at h
  rw [trimStart_cons (by decide), banMarker_eq, afterReason]
  simpa only [List.cons_append, List.nil_append, List.append_assoc] using h

-- The reasons that are remembered, as they are looked for.
def remembered (bans : List String) : List (List Char) := bans.map fun b => (Text.trim b).toList

theorem nonBlank_getD (s : String) : (nonBlank s).getD "" = s := by
  rw [nonBlank]
  split
  case isTrue h => exact (String.isEmpty_iff.mp h).symm
  case isFalse => rfl

-- A note that was put behind a reason is given back if and only if the reason is found again.
theorem note_restored_iff (reason : String) (note : Option String) (bans : List String) :
    Text.trim (((noteWith "BANNED" reason note).bind (withoutBanPrefixes · bans)).getD "") =
        Text.trim (note.getD "") ↔
      StripsBack (remembered bans) (afterReason (note.getD "")) reason.toList ∧
        Unmarked (remembered bans) (Text.trim (note.getD "")).toList := by
  have ⟨s, hs, hl⟩ := noteWith_toList reason note
  have ht : Trimmed s.toList := by
    rw [hl, ← List.append_assoc]
    refine ⟨?_, ?_⟩
    · rw [banMarker_eq]
      exact trimStart_cons (by decide)
    · rw [trimEnd_append (by decide), afterReason, trimEnd_trimEnd]
  have hr : Trimmed (stripBans (remembered bans) s.length s.toList) := stripBans_trimmed ht
  have hw : (withoutBanPrefixes s bans).getD "" =
      .ofList (stripBans (remembered bans) s.length s.toList) := by
    rw [withoutBanPrefixes, nonBlank_getD, ht.start]
    rfl
  have hn : Text.trim (note.getD "") = .ofList (trimStart (afterReason (note.getD ""))) := by
    rw [trimStart_afterReason, String.ofList_toList]
  rw [hs, Option.bind_some, hw, hr.trim, ← trimStart_afterReason, hn, String.ofList_inj, hl]
  exact stripBans_eq_iff (by rw [← hl]; exact Nat.le_refl _)

theorem mem_known {ban : List Char} (hb : ban ∈ bans.filter fun ban =>
    ban.isPrefixOf after && (after.drop ban.length).head? = some ']') :
    ban ∈ bans ∧ ∃ tail, after = ban ++ ']' :: tail := by
  have ⟨hm, hb⟩ := List.mem_filter.mp hb
  simp only [Bool.and_eq_true, List.isPrefixOf_iff_prefix, decide_eq_true_eq] at hb
  have ⟨⟨tail, ht⟩, hh⟩ := hb
  rw [← ht, List.drop_left] at hh
  have ⟨tail', ht'⟩ := List.head?_eq_some_iff.mp hh
  exact ⟨hm, tail', by rw [← ht, ht']⟩

theorem bracket_mem {ban tail : List Char} (h : reason ++ ']' :: rest = ban ++ ']' :: tail)
    (hl : ban.length < reason.length) : ']' ∈ reason := by
  cases List.append_eq_append_iff.mp h
  case inl h =>
    have ⟨m, hm, _⟩ := h
    rw [hm, List.length_append] at hl
    omega
  case inr h =>
    have ⟨m, hm, ht⟩ := h
    cases m
    case nil => simp [hm] at hl
    case cons c m =>
      cases ht
      exact hm ▸ List.mem_append_right _ List.mem_cons_self

-- A reason that's remembered, or that has no bracket, is found again unless a longer one that's remembered
-- reaches into the note.
theorem StripsBack.of_longest (hb : ']' ∉ reason ∨ reason ∈ bans)
    (h : ∀ ban ∈ bans, ∀ tail, reason ++ ']' :: rest = ban ++ ']' :: tail →
      ban.length ≤ reason.length) : StripsBack bans rest reason := by
  apply StripsBack.whole
  rw [banReasonLength]
  split
  case h_1 m hm =>
    have ⟨hmem, hmax⟩ := List.max?_eq_some_iff.mp hm
    have ⟨ban, hk, hl⟩ := List.mem_map.mp hmem
    have ⟨hban, tail, he⟩ := mem_known hk
    have hle := h ban hban tail he
    refine congrArg some (Nat.le_antisymm (hl ▸ hle) ?_)
    cases hb
    case inl hb =>
      by_contra hlt
      exact hb (bracket_mem he (hl ▸ Nat.lt_of_not_le hlt))
    case inr hb =>
      refine hmax _ (List.mem_map.mpr ⟨reason, List.mem_filter.mpr ⟨hb, ?_⟩, rfl⟩)
      simp
  case h_2 hm =>
    have hb : ']' ∉ reason := by
      refine hb.resolve_right fun hb => ?_
      rw [List.max?_eq_none_iff, List.map_eq_nil_iff, List.filter_eq_nil_iff] at hm
      exact absurd (hm reason hb) (by simp)
    rw [List.findIdx?_append, List.findIdx?_eq_none_iff.mpr fun c hc => ?_]
    · rw [List.findIdx?_cons, if_pos (by decide)]
      simp
    · exact decide_eq_false fun he => hb (he ▸ hc)

section

variable [F64 F] [Host F] {e e₀ e₁ e₂ : Engine F} {card banned card₁ unbanned : Card}
  {io io₁ : Io} {cardId operator operator₁ reason reason₁ : String} {now now₁ : Nat}

theorem banCard_note (hc : e.tables.cards.lookup cardId = some card)
    (h : e.banCard io cardId operator reason now = (.ok banned, e₀)) :
    banned.note = noteWith "BANNED" reason card.note := by
  cases Engine.transact_eq_ok (Commits.of_post banCard_posts).publishes h
  case inl h => exact absurd h.left banCard_ne_answer
  case inr h =>
    obtain ⟨_, _, h, _⟩ := h
    simp only [Tables.banCard, bind_eq_ok', exists_unit, pure_eq_ok, getCard_eq_ok] at h
    obtain ⟨_, _, _, hf, _, h⟩ := h
    cases hc.symm.trans hf
    cases h
    rfl

theorem unbanCard_note (hc : e₁.tables.cards.lookup cardId = some card₁)
    (h : e₁.unbanCard io cardId operator reason now = (.ok unbanned, e₂)) :
    unbanned.note = card₁.note.bind (withoutBanPrefixes · (e₁.tables.banReasons card₁.id)) := by
  cases Engine.transact_eq_ok (Commits.of_post unbanCard_posts).publishes h
  case inl h => exact absurd h.left unbanCard_ne_answer
  case inr h =>
    obtain ⟨_, _, h, _⟩ := h
    simp only [Tables.unbanCard, Tables.changeCard, bind_eq_ok', exists_unit, pure_eq_ok,
      getCard_eq_ok, ensure_eq_ok] at h
    obtain ⟨_, _, _, hf, _, ⟨_, _, hch⟩, h⟩ := h
    cases hc.symm.trans hf
    cases hch
    cases h
    rfl

-- A ban and its end, with anything in between that leaves the note as it is, give the note back if and
-- only if the ban's reason is found again by those that are remembered then.
theorem unban_restores_note_iff (hc : e.tables.cards.lookup cardId = some card)
    (hb : e.banCard io cardId operator reason now = (.ok banned, e₀))
    (hc₁ : e₁.tables.cards.lookup cardId = some card₁) (hn : card₁.note = banned.note)
    (hu : e₁.unbanCard io₁ cardId operator₁ reason₁ now₁ = (.ok unbanned, e₂)) :
    Text.trim (unbanned.note.getD "") = Text.trim (card.note.getD "") ↔
      StripsBack (remembered (e₁.tables.banReasons card₁.id)) (afterReason (card.note.getD ""))
        reason.toList ∧
      Unmarked (remembered (e₁.tables.banReasons card₁.id)) (Text.trim (card.note.getD "")).toList := by
  rw [unbanCard_note hc₁ hu, hn, banCard_note hc hb]
  exact note_restored_iff reason card.note _

end

-- A card with a note is banned and unbanned.
def noted : Engine ℚ := Engine.ofCard { Card.sample with note := some "n" }

def bannedFor (reason : String) : Result Card × Engine ℚ :=
  noted.banCard {} "card-1" "operator" reason 10

def unbannedAfter (reason : String) : Result Card × Engine ℚ :=
  (bannedFor reason).2.unbanCard {} "card-1" "operator" "paid" 20

-- Two reasons, with what's remembered of them and what's left of the note.
def runs : List (String × String × String) := [("late", "late", "n"), (" x] y", "x] y", "y] n")]

theorem runs_checked : ∀ run ∈ runs,
    (bannedFor run.1).1.toOption.map (·.id) = some "card-1" ∧
      (bannedFor run.1).1.toOption = (bannedFor run.1).2.tables.cards.lookup "card-1" ∧
      remembered ((bannedFor run.1).2.tables.banReasons "card-1") = [run.2.1.toList] ∧
      (unbannedAfter run.1).1.toOption.map (·.note) = some (some run.2.2) := by
  decide +kernel

theorem eq_ok_of_toOption {r : Result Card × Engine ℚ} (h : r.1.toOption = some card) :
    r = (.ok card, r.2) := by
  have ⟨result, e⟩ := r
  cases result
  case error => cases h
  case ok => cases h; rfl

theorem run_ends (reason known note : String) (h : (reason, known, note) ∈ runs) :
    ∃ banned unbanned,
      noted.banCard {} "card-1" "operator" reason 10 = (.ok banned, (bannedFor reason).2) ∧
      (bannedFor reason).2.tables.cards.lookup "card-1" = some banned ∧
      remembered ((bannedFor reason).2.tables.banReasons banned.id) = [known.toList] ∧
      (bannedFor reason).2.unbanCard {} "card-1" "operator" "paid" 20 =
        (.ok unbanned, (unbannedAfter reason).2) ∧ unbanned.note = some note := by
  have ⟨hid, hl, hk, hu⟩ := runs_checked _ h
  have ⟨banned, hb, hid⟩ := Option.map_eq_some_iff.mp hid
  have ⟨unbanned, hu, hn⟩ := Option.map_eq_some_iff.mp hu
  exact ⟨banned, unbanned, eq_ok_of_toOption hb, hl.symm.trans hb, hid ▸ hk, eq_ok_of_toOption hu, hn⟩

theorem noted_lookup :
    noted.tables.cards.lookup "card-1" = some { Card.sample with note := some "n" } :=
  AList.lookup_insert _

theorem trim_n : (Text.trim "n").toList = ['n'] := by
  rw [Text.trim, String.toList_ofList, show "n".toList = ['n'] from String.toList_ofList]
  decide

theorem unmarked_n : ¬banMarker <+: (Text.trim "n").toList := by
  rw [banMarker_eq, trim_n]
  decide

theorem unban_restores_note_iff_sample : ∃ unbanned e₂,
    (bannedFor "late").2.unbanCard {} "card-1" "operator" "paid" 20 = (.ok unbanned, e₂) ∧
      Text.trim (unbanned.note.getD "") = Text.trim "n" := by
  have ⟨banned, unbanned, hb, hl, hk, hu, _⟩ := run_ends "late" "late" "n" List.mem_cons_self
  have h := unban_restores_note_iff noted_lookup hb hl (Eq.refl banned.note) hu
  rw [hk] at h
  refine ⟨unbanned, _, hu, h.mpr ⟨.of_longest (.inr List.mem_cons_self) fun ban hban _ _ => ?_, ?_⟩⟩
  · rw [List.mem_singleton.mp hban]
  · exact fun after ha => absurd ⟨after, ha.symm⟩ unmarked_n

-- A reason with a space before it isn't found again by what's remembered of it, and then ends at its
-- first bracket.
theorem unban_loses_note : ¬∀ (e e₀ e₁ e₂ : Engine ℚ) (card banned card₁ unbanned : Card) (reason : String),
    e.tables.cards.lookup "card-1" = some card →
    ¬banMarker <+: (Text.trim (card.note.getD "")).toList →
    e.banCard {} "card-1" "operator" reason 10 = (.ok banned, e₀) →
    e₁.tables.cards.lookup "card-1" = some card₁ → card₁.note = banned.note →
    e₁.unbanCard {} "card-1" "operator" "paid" 20 = (.ok unbanned, e₂) →
      Text.trim (unbanned.note.getD "") = Text.trim (card.note.getD "") := by
  intro h
  have ⟨banned, unbanned, hb, hl, _, hu, hn⟩ := run_ends " x] y" "x] y" "y] n"
    (.tail _ List.mem_cons_self)
  have he := h noted _ _ _ _ banned banned unbanned " x] y" noted_lookup unmarked_n hb hl rfl hu
  have hl : "y] n".toList = ['y', ']', ' ', 'n'] := String.toList_ofList
  rw [hn, Option.getD_some, ← String.toList_inj] at he
  change _ = (Text.trim "n").toList at he
  rw [trim_n, Text.trim, String.toList_ofList, hl] at he
  exact absurd he (by decide)

end Billing
