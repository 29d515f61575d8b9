import Superkiro.Billing.Card
import Superkiro.Billing.Loader
import Superkiro.Lib.Decimal
import Superkiro.Lib.Run

-- How the engine's state is committed to files, and what's left of that when its process dies.
namespace Billing

open StateFiles (size sha256 isText anchorText readAnchor decode)

def generationInfix : String := ".gen_"

def generationName (target : String) (sequence : Nat) : String :=
  target ++ generationInfix ++ toString sequence

-- `parse::<u64>`
def parseU64 (cs : List Char) : Option Nat :=
  (Decimal.digits? (if cs.head? = some '+' then cs.tail else cs)).filter (· ≤ u64Max)

-- Files that pruning takes away: generations before the previous one, and what's left of writing
-- one. The names of those aren't numbers.
def prunable (target : String) (current : Nat) (name : String) : Bool :=
  match name.toList.dropPrefix? (target ++ generationInfix).toList with
  | none        => false
  | some suffix =>
    match parseU64 suffix with
    | some sequence => sequence < current - 1
    | none          => ".tmp.".toList <:+: name.toList

section

variable {target name : String} {m n current : Nat}

theorem toList_generationName : (generationName target n).toList =
    target.toList ++ (generationInfix.toList ++ Nat.toDigits 10 n) := by
  simp [generationName]

theorem generationName_inj : generationName target m = generationName target n ↔ m = n := by
  refine ⟨fun h => ?_, congrArg _⟩
  have h := congrArg String.toList h
  rw [toList_generationName, toList_generationName, List.append_cancel_left_eq,
    List.append_cancel_left_eq] at h
  have h := congrArg Decimal.digits? h
  rwa [Decimal.digits?_toDigits, Decimal.digits?_toDigits, Option.some.injEq] at h

theorem generationName_ne : generationName target n ≠ target := by
  intro h
  have h := congrArg (List.length ∘ String.toList) h
  simp [toList_generationName, generationInfix] at h

theorem generationName_ne_anchorName : generationName target n ≠ anchorName target := by
  intro h
  have h := congrArg String.toList h
  rw [toList_generationName, anchorName, String.toList_append, List.append_cancel_left_eq] at h
  have h := congrArg (·[1]?) h
  simp [generationInfix] at h

theorem exists_suffix (h : prunable target current name) : ∃ suffix,
    name.toList = target.toList ++ (generationInfix.toList ++ suffix) ∧
      ∀ n, parseU64 suffix = some n → n < current - 1 := by
  rw [prunable] at h
  split at h
  case h_1 => cases h
  case h_2 suffix hs =>
    obtain ⟨pre, hl, hp⟩ := List.dropPrefix?_eq_some_iff.mp hs
    refine ⟨suffix, ?_, fun n hn => ?_⟩
    · rw [hl, eq_of_beq hp, String.toList_append, List.append_assoc]
    · rw [hn] at h
      exact of_decide_eq_true h

theorem prunable_target : prunable target current target = false := by
  by_contra h
  obtain ⟨suffix, h, _⟩ := exists_suffix (eq_true_of_ne_false h)
  have h := congrArg List.length h
  simp [generationInfix] at h

theorem prunable_anchorName : prunable target current (anchorName target) = false := by
  by_contra h
  obtain ⟨suffix, h, _⟩ := exists_suffix (eq_true_of_ne_false h)
  rw [anchorName, String.toList_append, List.append_cancel_left_eq] at h
  have h := congrArg (·[1]?) h
  simp [generationInfix] at h

theorem parseU64_toDigits (h : n ≤ u64Max) : parseU64 (Nat.toDigits 10 n) = some n := by
  have hp : (Nat.toDigits 10 n).head? ≠ some '+' := by
    intro hh
    have := Decimal.isDigit_toDigits _ (List.mem_of_mem_head? hh)
    revert this
    decide
  rw [parseU64, if_neg hp, Decimal.digits?_toDigits, Option.filter_some, if_pos (by simpa using h)]

-- Pruning leaves the current generation and the one before.
theorem prunable_generationName (hn : n ≤ u64Max)
    (h : prunable target current (generationName target n)) : n < current - 1 := by
  obtain ⟨suffix, hs, h⟩ := exists_suffix h
  rw [toList_generationName, List.append_cancel_left_eq, List.append_cancel_left_eq] at hs
  exact h n (hs ▸ parseU64_toDigits hn)

end

variable {C σ : Type}

structure Commit (C : Type) where
  sequence : Nat
  content  : C
  deriving DecidableEq

def Commit.anchor [StateFiles C σ] (target : String) (c : Commit C) : SnapshotAnchor where
  version        := snapshotVersion
  sequence       := c.sequence
  checksum       := sha256 c.content
  generationFile := some (generationName target c.sequence)

-- How far a commit has got. The process doesn't run at first, and once it's dead.
inductive Phase (C : Type)
  | down
  | idle
  | writing (c : Commit C)
  | written (c : Commit C)
  | anchored (c : Commit C)
  | mirrored (c : Commit C)

-- What happens next. Where a write fails, the file is as it was.
inductive Event (C : Type)
  | begin (content : C)
  | generation (succeeds : Bool)
  | anchor (succeeds : Bool)
  | mirror (succeeds : Bool)
  | prune (name : String)
  | finish
  | crash
  | start (heals : Bool)

structure Storage (C : Type) where
  file      : String → Option C
  archives  : String → Option C
  phase     : Phase C := .down
  -- The sequence of the state in memory.
  sequence  : Nat := 0
  -- The commits whose anchor was written, and of those the ones that returned. The latest is first.
  committed : List (Commit C) := []
  returned  : List (Commit C) := []

namespace Storage

section

variable [StateFiles C σ] (target : String) (requireAnchor : Bool)

def write (s : Storage C) (name : String) (content : Option C) : Storage C :=
  { s with file := Function.update s.file name content }

def data (s : Storage C) : DataDir C := ⟨s.file, s.archives⟩

def empty (archives : String → Option C) : Storage C where
  file _   := none
  archives := archives

def fits (content : C) : Bool := size content ≤ maxSnapshotBytes && isText content

-- The generation that's written to a target which isn't what the anchor says.
def healing (d : DataDir C) : Option C := do
  let text ← d.file (anchorName target)
  let anchor ← (DataDir.readSnapshotAnchor text).toOption
  guard (anchor.version ≤ snapshotVersion)
  let valid ← (d.validTarget target anchor).toOption
  guard valid.isNone
  let name ← anchor.generationFile
  let content ← d.file name
  guard (size content ≤ maxSnapshotBytes && sha256 content = anchor.checksum)
  return content

def heal (s : Storage C) (heals : Bool) : Storage C :=
  match (healing target s.data).filter fun _ => heals with
  | some content => s.write target (some content)
  | none         => s

-- A process starts without a state where there are no files, and not at all where they can't be
-- loaded.
def start (s : Storage C) (heals : Bool) : Storage C :=
  if (s.file target).isNone && (s.file (anchorName target)).isNone then
    { s with phase := .idle, sequence := 0 }
  else
    match s.data.load target requireAnchor 0 with
    | .ok state =>
      { s.heal target heals with phase := .idle, sequence := StateFiles.sequence C state }
    | .error _  => s.heal target heals

def step? (s : Storage C) (event : Event C) : Option (Storage C) :=
  match event, s.phase with
  | .crash, _ => some { s with phase := .down }
  | .start heals, .down => some (s.start target requireAnchor heals)
  | .begin content, .idle =>
    if fits content then some { s with phase := .writing ⟨satAddU64 s.sequence 1, content⟩ }
    else none
  | .generation true, .writing c =>
    some { s.write (generationName target c.sequence) (some c.content) with phase := .written c }
  | .generation false, .writing _ => some { s with phase := .idle }
  | .anchor true, .written c =>
    some { s.write (anchorName target) (some (anchorText (c.anchor target))) with
      phase     := .anchored c
      committed := c :: s.committed }
  | .anchor false, .written _ => some { s with phase := .idle }
  | .mirror true, .anchored c =>
    some { s.write target (some c.content) with phase := .mirrored c }
  | .mirror false, .anchored c => some { s with phase := .mirrored c }
  | .prune name, .mirrored c =>
    if prunable target c.sequence name then some (s.write name none) else none
  | .finish, .mirrored c =>
    some { s with phase := .idle, sequence := c.sequence, returned := c :: s.returned }
  | _, _ => none

def Step (s : Storage C) (event : Event C) (s' : Storage C) : Prop :=
  s.step? target requireAnchor event = some s'

def last (s : Storage C) : Nat := (s.committed.head?.map (·.sequence)).getD 0

def InPhase (s : Storage C) : Prop :=
  match s.phase with
  | .down => True
  | .idle => s.sequence = s.last
  | .writing c => s.sequence = s.last ∧ c.sequence = s.last + 1 ∧ fits c.content
  | .written c => s.sequence = s.last ∧ c.sequence = s.last + 1 ∧ fits c.content ∧
    s.file (generationName target c.sequence) = some c.content
  | .anchored c => s.committed.head? = some c
  | .mirrored c => s.committed.head? = some c

-- No two contents that were committed have the same checksum.
def Distinct (s : Storage C) : Prop :=
  ∀ c ∈ s.committed, ∀ c' ∈ s.committed, sha256 c.content = sha256 c'.content →
    c.content = c'.content

-- What's on disk is the last commit whose anchor was written, and the target, if it's there, is one
-- of those commits.
structure Sound (s : Storage C) : Prop where
  fits     : ∀ c ∈ s.committed, fits c.content
  sorted   : s.committed.Pairwise (·.sequence > ·.sequence)
  returned : ∀ c ∈ s.returned, c ∈ s.committed
  fresh    : s.committed = [] → s.file (anchorName target) = none
  anchor   : ∀ c ∈ s.committed.head?,
    s.file (anchorName target) = some (anchorText (c.anchor target))
  current  : ∀ c ∈ s.committed.head?, s.file (generationName target c.sequence) = some c.content
  mirror   : ∀ content, s.file target = some content → ∃ c ∈ s.committed, c.content = content
  phase    : s.InPhase target

end

section

variable [StateFiles C σ] {target : String} {requireAnchor : Bool} {s s' : Storage C} {c : Commit C}
  {event : Event C} {events : List (Event C)} {content : C} {heals : Bool}

-- A name without the characters that an anchor's generation can't have.
def Plain (target : String) : Prop := ∀ x ∈ target.toList, x ≠ '/' ∧ x ≠ '\\' ∧ x ≠ ':'

theorem Plain.generationName {n : Nat} (h : Plain target) :
    DataDir.badGenerationName (generationName target n) = false := by
  have hl : 5 ≤ (Billing.generationName target n).toList.length := by
    rw [toList_generationName]
    simp [generationInfix]
    omega
  have hne (x : String) (hx : x.toList.length < 5) : Billing.generationName target n ≠ x := by
    rintro rfl
    omega
  have hc : ∀ x ∈ (Billing.generationName target n).toList, x ≠ '/' ∧ x ≠ '\\' ∧ x ≠ ':' := by
    intro x hx
    rw [toList_generationName, List.mem_append, List.mem_append] at hx
    rcases hx with hx | hx | hx
    · exact h x hx
    · simp only [generationInfix, String.reduceToList, List.mem_cons, List.not_mem_nil,
        or_false] at hx
      rcases hx with rfl | rfl | rfl | rfl | rfl <;> decide
    · have := Decimal.isDigit_toDigits x hx
      refine ⟨?_, ?_, ?_⟩ <;> rintro rfl <;> revert this <;> decide
  simp only [DataDir.badGenerationName, hne "" (by decide), hne "." (by decide),
    hne ".." (by decide), decide_false, Bool.false_or, List.any_eq_false, Bool.or_eq_true,
    decide_eq_true_eq]
  intro x hx
  have ⟨h₁, h₂, h₃⟩ := hc x hx
  simp [h₁, h₂, h₃]

theorem Plain.readSnapshotAnchor (h : Plain target) :
    DataDir.readSnapshotAnchor (anchorText (c.anchor target) : C) = .ok (c.anchor target) := by
  refine DataDir.readSnapshotAnchor_eq_ok.mpr ⟨StateFiles.read_anchorText, ?_⟩
  simp [Commit.anchor, h.generationName]

omit [StateFiles C σ] in
theorem write_self {name : String} {x : Option C} : (s.write name x).file name = x :=
  Function.update_self ..

omit [StateFiles C σ] in
theorem write_of_ne {name name' : String} {x : Option C} (h : name' ≠ name) :
    (s.write name x).file name' = s.file name' := Function.update_of_ne h ..

omit [StateFiles C σ] in
theorem write_phase {name : String} {x : Option C} : (s.write name x).phase = s.phase := rfl

theorem anchorName_ne : anchorName target ≠ target := by
  intro h
  have := congrArg String.length h
  simp [anchorName] at this

-- Nothing that was done is forgotten.
structure Later (s s' : Storage C) : Prop where
  committed : s.committed <:+ s'.committed
  returned  : s.returned <:+ s'.returned

theorem Later.of_eq (hc : s'.committed = s.committed) (hr : s'.returned = s.returned) :
    s.Later s' := ⟨hc ▸ List.suffix_rfl, hr ▸ List.suffix_rfl⟩

theorem Later.trans {s₁ s₂ s₃ : Storage C} (h : s₁.Later s₂) (h' : s₂.Later s₃) : s₁.Later s₃ :=
  ⟨h.committed.trans h'.committed, h.returned.trans h'.returned⟩

theorem Later.distinct (h : s.Later s') (hd : s'.Distinct) : s.Distinct :=
  fun c hc c' hc' => hd c (h.committed.subset hc) c' (h.committed.subset hc')

theorem later_heal : s.Later (s.heal target heals) := by
  rw [heal]
  split <;> exact .of_eq rfl rfl

theorem Step.later (hs : s.Step target requireAnchor event s') : s.Later s' := by
  unfold Step step? at hs
  split at hs
  case h_2 =>
    cases hs
    rw [Storage.start]
    split
    case isTrue => exact .of_eq rfl rfl
    case isFalse =>
      split
      case h_1 => exact later_heal.trans (.of_eq rfl rfl)
      case h_2 => exact later_heal
  case h_6 c _ =>
    cases hs
    exact ⟨List.suffix_cons c _, List.suffix_rfl⟩
  case h_11 c _ =>
    cases hs
    exact ⟨List.suffix_rfl, List.suffix_cons c _⟩
  case h_3 | h_10 =>
    split at hs
    case isTrue =>
      cases hs
      exact .of_eq rfl rfl
    case isFalse => cases hs
  case h_12 => cases hs
  all_goals
    cases hs
    exact .of_eq rfl rfl

theorem later_of_run (r : Run (Step target requireAnchor) s events s') : s.Later s' := by
  induction r
  case nil => exact .of_eq rfl rfl
  case cons hs _ hi => exact hs.later.trans hi

-- The files a step can write.
theorem Step.file_eq (hs : s.Step target requireAnchor event s') (name : String) :
    s'.file name = s.file name ∨ s'.file name = none ∨ name = target ∨ name = anchorName target ∨
      ∃ c, s.phase = .writing c ∧ name = generationName target c.sequence := by
  unfold Step step? at hs
  split at hs
  case h_2 heals _ =>
    cases hs
    rw [Storage.start]
    split
    case isTrue => exact .inl rfl
    case isFalse =>
      have hh : (s.heal target heals).file name = s.file name ∨ name = target := by
        rw [heal]
        split
        case h_1 =>
          by_cases hn : name = target
          case pos => exact .inr hn
          case neg => exact .inl (write_of_ne hn)
        case h_2 => exact .inl rfl
      rcases hh with hh | hh
      · split <;> exact .inl hh
      · exact .inr (.inr (.inl hh))
  case h_4 c hphase =>
    cases hs
    by_cases hn : name = generationName target c.sequence
    case pos => exact .inr (.inr (.inr (.inr ⟨c, hphase, hn⟩)))
    case neg => exact .inl (write_of_ne hn)
  case h_6 =>
    cases hs
    by_cases hn : name = anchorName target
    case pos => exact .inr (.inr (.inr (.inl hn)))
    case neg => exact .inl (write_of_ne hn)
  case h_8 =>
    cases hs
    by_cases hn : name = target
    case pos => exact .inr (.inr (.inl hn))
    case neg => exact .inl (write_of_ne hn)
  case h_10 name' _ _ =>
    split at hs
    case isTrue =>
      cases hs
      by_cases hn : name = name'
      case pos => exact .inr (.inl (hn ▸ write_self))
      case neg => exact .inl (write_of_ne hn)
    case isFalse => cases hs
  case h_3 =>
    split at hs
    case isTrue =>
      cases hs
      exact .inl rfl
    case isFalse => cases hs
  case h_12 => cases hs
  all_goals
    cases hs
    exact .inl rfl

-- Only a step that writes an anchor commits anything.
theorem Step.committed (hs : s.Step target requireAnchor event s') :
    s'.committed = s.committed ∨ event = .anchor true ∧ ∃ c, s'.committed = c :: s.committed := by
  unfold Step step? at hs
  split at hs
  case h_2 heals _ =>
    cases hs
    have hh : (s.heal target heals).committed = s.committed := by
      rw [heal]
      split <;> rfl
    rw [Storage.start]
    split
    case isTrue => exact .inl rfl
    case isFalse => split <;> exact .inl hh
  case h_6 c _ =>
    cases hs
    exact .inr ⟨rfl, c, rfl⟩
  case h_3 | h_10 =>
    split at hs
    case isTrue =>
      cases hs
      exact .inl rfl
    case isFalse => cases hs
  case h_12 => cases hs
  all_goals
    cases hs
    exact .inl rfl

-- A generation that was committed is never written again. It can only be pruned.
def Kept (target : String) (s : Storage C) : Prop := ∀ c ∈ s.committed,
  s.file (generationName target c.sequence) = some c.content ∨
  s.file (generationName target c.sequence) = none

namespace Sound

-- What's on disk is read as the last commit.
theorem committedContent (h : s.Sound target) (hi : s.Distinct)
    (hc : c ∈ s.committed.head?) :
    s.data.committedContent target (c.anchor target) = .ok c.content := by
  have hfits (c) (hc : c ∈ s.committed) :
      size c.content ≤ maxSnapshotBytes ∧ isText c.content = true := by
    simpa only [Storage.fits, Bool.and_eq_true, decide_eq_true_eq] using h.fits c hc
  have hgen : s.data.file (Billing.generationName target c.sequence) = some c.content :=
    h.current c hc
  obtain ⟨hsize, htext⟩ := hfits c (List.mem_of_mem_head? hc)
  have hv : s.data.validTarget target (c.anchor target) = .ok none ∨
      s.data.validTarget target (c.anchor target) = .ok (some c.content) := by
    rw [DataDir.validTarget]
    split
    case h_1 => exact .inl rfl
    case h_2 content hf =>
      obtain ⟨c', hm, rfl⟩ := h.mirror content hf
      simp only [Except.ensure, (hfits c' hm).left, (hfits c' hm).right, decide_true, if_true, bind,
        Except.bind]
      split
      case isTrue hs =>
        rw [hi c' hm c (List.mem_of_mem_head? hc) hs]
        exact .inr rfl
      case isFalse => exact .inl rfl
  rw [DataDir.committedContent]
  rcases hv with hv | hv
  · rw [hv]
    simp only [Commit.anchor, hgen, Except.ensure, hsize, htext, decide_true, if_true, bind,
      Except.bind]
    rfl
  · rw [hv]
    rfl

theorem load (h : s.Sound target) (hp : Plain target) (hi : s.Distinct)
    (hc : c ∈ s.committed.head?) : s.data.load target requireAnchor 0 =
      decode s.archives (some (c.anchor target)) c.content := by
  have ha : s.data.file (anchorName target) = some (anchorText (c.anchor target)) := h.anchor c hc
  rw [DataDir.load, ha]
  simp only [hp.readSnapshotAnchor, bind, Except.bind, h.committedContent hi hc]
  simp [Except.ensure, Commit.anchor, data]

theorem healing (h : s.Sound target) (hp : Plain target) (hc : c ∈ s.committed.head?)
    (hh : Storage.healing target s.data = some content) : content = c.content := by
  have ha : s.data.file (anchorName target) = some (anchorText (c.anchor target)) := h.anchor c hc
  have hg : s.data.file (Billing.generationName target c.sequence) = some c.content :=
    h.current c hc
  simp only [Storage.healing, Option.bind_eq_bind, Option.bind_eq_some_iff, ha] at hh
  obtain ⟨_, he, anchor, hread, _, _, _, _, _, _, name, hn, content', hcontent, _, _, hh⟩ := hh
  cases he
  rw [hp.readSnapshotAnchor] at hread
  cases hread
  cases hn
  cases hh
  rw [hg] at hcontent
  exact (Option.some.inj hcontent).symm

omit [StateFiles C σ] in
theorem last_eq (hc : s.committed.head? = some c) : s.last = c.sequence := by
  rw [last, hc]
  rfl

theorem le_last (h : s.Sound target) (hc : c ∈ s.committed) : c.sequence ≤ s.last := by
  have hs := h.sorted
  cases hl : s.committed
  case nil => simp [hl] at hc
  case cons c' cs =>
    rw [hl] at hs hc
    rw [last_eq (by rw [hl]; rfl)]
    cases hc
    case head => exact le_refl _
    case tail hm => exact ((List.pairwise_cons.mp hs).left c hm).le

-- Files that don't matter to the last commit can change.
theorem of_files (h : s.Sound target) (hc : s'.committed = s.committed)
    (hr : s'.returned = s.returned)
    (ha : s'.file (anchorName target) = s.file (anchorName target))
    (hg : ∀ c ∈ s.committed.head?, s'.file (Billing.generationName target c.sequence) =
      s.file (Billing.generationName target c.sequence))
    (hm : ∀ content, s'.file target = some content → ∃ c ∈ s.committed, c.content = content)
    (hp : s'.InPhase target) : s'.Sound target where
  fits     := hc ▸ h.fits
  sorted   := hc ▸ h.sorted
  returned := hc ▸ hr ▸ h.returned
  fresh he := ha.trans (h.fresh (hc ▸ he))
  anchor c hm := ha.trans (h.anchor c (hc ▸ hm))
  current c hm := (hg c (hc ▸ hm)).trans (h.current c (hc ▸ hm))
  mirror   := hc ▸ hm
  phase    := hp

theorem rest (h : s.Sound target) (hf : s'.file = s.file) (hc : s'.committed = s.committed)
    (hr : s'.returned = s.returned) (hp : s'.InPhase target) : s'.Sound target :=
  h.of_files hc hr (hf ▸ rfl) (fun _ _ => hf ▸ rfl) (hf ▸ h.mirror) hp

-- A target that's healed is the last commit.
theorem heal (h : s.Sound target) (hp : Plain target) (hd : s.phase = .down)
    (hc : c ∈ s.committed.head?) :
    (s.heal target heals).Sound target ∧ (s.heal target heals).committed = s.committed := by
  rw [Storage.heal]
  split
  case h_1 content hf =>
    have hcontent := h.healing hp hc (Option.filter_eq_some_iff.mp hf).left
    subst hcontent
    refine ⟨h.of_files rfl rfl ?_ ?_ ?_ ?_, rfl⟩
    · exact write_of_ne anchorName_ne
    · exact fun c _ => write_of_ne generationName_ne
    · intro content hcontent
      rw [write_self, Option.some.injEq] at hcontent
      exact ⟨c, List.mem_of_mem_head? hc, hcontent⟩
    · rw [InPhase, write_phase, hd]
      trivial
  case h_2 => exact ⟨h, rfl⟩

theorem start (h : s.Sound target) (hp : Plain target) (hi : s.Distinct)
    (hd : s.phase = .down) : (s.start target requireAnchor heals).Sound target ∧
      (s.start target requireAnchor heals).committed = s.committed := by
  rw [Storage.start]
  split
  case isTrue hnone =>
    simp only [Bool.and_eq_true, Option.isNone_iff_eq_none] at hnone
    refine ⟨h.rest rfl rfl rfl ?_, rfl⟩
    cases hc : s.committed
    case nil => simp [InPhase, last]
    case cons c cs =>
      have := h.anchor c (by rw [hc]; rfl)
      rw [hnone.right] at this
      cases this
  case isFalse hsome =>
    have ⟨c, hc⟩ : ∃ c, c ∈ s.committed.head? := by
      cases hc : s.committed
      case cons c cs => exact ⟨c, rfl⟩
      case nil =>
        refine absurd ?_ hsome
        have ht : s.file target = none := by
          rw [Option.eq_none_iff_forall_ne_some]
          intro content hf
          obtain ⟨c, hm, _⟩ := h.mirror content hf
          simp [hc] at hm
        simp [ht, h.fresh hc]
    obtain ⟨hh, hcommitted⟩ : (s.heal target heals).Sound target ∧
        (s.heal target heals).committed = s.committed := h.heal hp hd hc
    rw [h.load hp hi hc]
    split
    case h_1 state hstate =>
      refine ⟨hh.rest rfl rfl rfl ?_, hcommitted⟩
      change StateFiles.sequence C state = Storage.last _
      rw [StateFiles.decode_sequence hstate, last, hcommitted, hc]
      rfl
    case h_2 => exact ⟨hh, hcommitted⟩

theorem step (h : s.Sound target) (hp : Plain target) (hi : s.Distinct)
    (hl : s.last < u64Max) (hs : s.Step target requireAnchor event s') :
    s'.Sound target ∧ s'.last ≤ s.last + 1 := by
  have hph := h.phase
  unfold Step step? at hs
  split at hs
  case h_1 =>
    cases hs
    exact ⟨h.rest rfl rfl rfl trivial, Nat.le_succ _⟩
  case h_2 heals hd =>
    cases hs
    obtain ⟨hs, hc⟩ : (s.start target requireAnchor heals).Sound target ∧
        (s.start target requireAnchor heals).committed = s.committed := h.start hp hi hd
    exact ⟨hs, by rw [last, hc]; exact Nat.le_succ _⟩
  case h_3 content hphase =>
    split at hs
    case isTrue hf =>
      cases hs
      rw [InPhase, hphase] at hph
      refine ⟨h.rest rfl rfl rfl ⟨hph, ?_, hf⟩, Nat.le_succ _⟩
      change satAddU64 s.sequence 1 = s.last + 1
      have hph : s.sequence = s.last := hph
      rw [hph, satAddU64]
      omega
    case isFalse => cases hs
  case h_4 c hphase =>
    cases hs
    rw [InPhase, hphase] at hph
    obtain ⟨hseq, hnext, hf⟩ := hph
    refine ⟨h.of_files rfl rfl ?_ ?_ ?_ ⟨hseq, hnext, hf, write_self⟩, Nat.le_succ _⟩
    · exact write_of_ne generationName_ne_anchorName.symm
    · intro c' hc'
      refine write_of_ne fun he => ?_
      have := last_eq hc'
      have := generationName_inj.mp he
      omega
    · intro content hcontent
      rw [write_of_ne generationName_ne.symm] at hcontent
      exact h.mirror content hcontent
  case h_5 c hphase =>
    cases hs
    rw [InPhase, hphase] at hph
    exact ⟨h.rest rfl rfl rfl hph.left, Nat.le_succ _⟩
  case h_6 c hphase =>
    cases hs
    rw [InPhase, hphase] at hph
    obtain ⟨hseq, hnext, hf, hfile⟩ := hph
    refine ⟨?_, hnext.le⟩
    constructor
    case fits => exact List.forall_mem_cons.mpr ⟨hf, h.fits⟩
    case sorted =>
      refine List.pairwise_cons.mpr ⟨fun c' hc' => ?_, h.sorted⟩
      have := h.le_last hc'
      omega
    case returned => exact fun c' hc' => .tail _ (h.returned c' hc')
    case fresh => nofun
    case anchor =>
      intro c' hc'
      cases hc'
      exact write_self
    case current =>
      intro c' hc'
      cases hc'
      exact (write_of_ne generationName_ne_anchorName).trans hfile
    case mirror =>
      intro content hcontent
      rw [write_of_ne anchorName_ne.symm] at hcontent
      obtain ⟨c', hm, hc'⟩ := h.mirror content hcontent
      exact ⟨c', .tail _ hm, hc'⟩
    case phase => rfl
  case h_7 c hphase =>
    cases hs
    rw [InPhase, hphase] at hph
    exact ⟨h.rest rfl rfl rfl hph.left, Nat.le_succ _⟩
  case h_8 c hphase =>
    cases hs
    rw [InPhase, hphase] at hph
    refine ⟨h.of_files rfl rfl ?_ ?_ ?_ hph, Nat.le_succ _⟩
    · exact write_of_ne anchorName_ne
    · exact fun c _ => write_of_ne generationName_ne
    · intro content hcontent
      rw [write_self, Option.some.injEq] at hcontent
      exact ⟨c, List.mem_of_mem_head? hph, hcontent⟩
  case h_9 c hphase =>
    cases hs
    rw [InPhase, hphase] at hph
    exact ⟨h.rest rfl rfl rfl hph, Nat.le_succ _⟩
  case h_10 name c hphase =>
    rw [InPhase, hphase] at hph
    split at hs
    case isTrue hprune =>
      cases hs
      have hne {name'} (hn : prunable target c.sequence name' = false) : name' ≠ name := by
        rintro rfl
        rw [hn] at hprune
        cases hprune
      refine ⟨h.of_files rfl rfl ?_ ?_ ?_ ?_, Nat.le_succ _⟩
      · exact write_of_ne (hne prunable_anchorName)
      · intro c' hc'
        have he := Option.some.inj (hph.symm.trans hc')
        subst he
        refine write_of_ne (hne (Bool.eq_false_iff.mpr fun hprune => ?_))
        have hlast := last_eq hph
        have := prunable_generationName (hlast ▸ hl.le) hprune
        omega
      · intro content hcontent
        rw [write_of_ne (hne prunable_target)] at hcontent
        exact h.mirror content hcontent
      · rw [InPhase, write_phase, hphase]
        exact hph
    case isFalse => cases hs
  case h_11 c hphase =>
    cases hs
    rw [InPhase, hphase] at hph
    refine ⟨⟨h.fits, h.sorted, ?_, h.fresh, h.anchor, h.current, h.mirror, ?_⟩, Nat.le_succ _⟩
    · exact List.forall_mem_cons.mpr ⟨List.mem_of_mem_head? hph, h.returned⟩
    · exact (last_eq hph).symm
  case h_12 => cases hs

theorem kept_step (h : s.Sound target) (h' : s'.Sound target) (hk : s.Kept target)
    (hs : s.Step target requireAnchor event s') : s'.Kept target := by
  intro c hc
  have hold (hm : c ∈ s.committed) : s'.file (Billing.generationName target c.sequence) =
      some c.content ∨ s'.file (Billing.generationName target c.sequence) = none := by
    rcases hs.file_eq (Billing.generationName target c.sequence) with he | he | he | he | he
    · exact he ▸ hk c hm
    · exact .inr he
    · exact absurd he generationName_ne
    · exact absurd he generationName_ne_anchorName
    · obtain ⟨c', hphase, he⟩ := he
      have hph := h.phase
      rw [InPhase, hphase] at hph
      have := h.le_last hm
      have := generationName_inj.mp he
      omega
  rcases hs.committed with he | ⟨_, c', he⟩
  · exact hold (he ▸ hc)
  · rw [he, List.mem_cons] at hc
    rcases hc with rfl | hc
    · exact .inl (h'.current c (by rw [he]; rfl))
    · exact hold hc

theorem run (h : s.Sound target) (hp : Plain target) (hd : s'.Distinct)
    (r : Run (Step target requireAnchor) s events s') (hn : s.last + events.length ≤ u64Max) :
    s'.Sound target ∧ s'.last ≤ s.last + events.length := by
  induction r
  case nil => exact ⟨h, le_refl _⟩
  case cons hs r hr =>
    rw [List.length_cons] at hn
    have later := hs.later.trans (later_of_run r)
    obtain ⟨h, hl⟩ := h.step hp (later.distinct hd) (by omega) hs
    obtain ⟨h, hl'⟩ := hr h hd (by omega)
    exact ⟨h, by rw [List.length_cons]; omega⟩

theorem kept_run (h : s.Sound target) (hp : Plain target) (hd : s'.Distinct) (hk : s.Kept target)
    (r : Run (Step target requireAnchor) s events s') (hn : s.last + events.length ≤ u64Max) :
    s'.Kept target := by
  induction r
  case nil => exact hk
  case cons hs r hr =>
    rw [List.length_cons] at hn
    have later := hs.later.trans (later_of_run r)
    obtain ⟨h', hl⟩ := h.step hp (later.distinct hd) (by omega) hs
    exact hr h' hd (h.kept_step h' hk hs) (by omega)

theorem empty {archives : String → Option C} : (Storage.empty archives).Sound target where
  fits     := nofun
  sorted   := .nil
  returned := nofun
  fresh _  := rfl
  anchor   := nofun
  current  := nofun
  mirror   := nofun
  phase    := trivial

-- Of two commits with one sequence, one was never made.
theorem le_head (h : s.Sound target) (hm : c ∈ s.committed) : ∃ c' ∈ s.committed.head?,
    c.sequence ≤ c'.sequence ∧ (c.sequence = c'.sequence → c = c') := by
  have hs := h.sorted
  cases hc : s.committed
  case nil => simp [hc] at hm
  case cons c' cs =>
    rw [hc] at hs hm
    refine ⟨c', rfl, ?_⟩
    cases hm
    case head => exact ⟨le_refl _, fun _ => rfl⟩
    case tail hm =>
      have hlt := (List.pairwise_cons.mp hs).left c hm
      exact ⟨hlt.le, fun he => absurd he hlt.ne⟩

end Sound

-- In every state, also in the middle of a commit and once its process is dead, what's loaded is the
-- last commit whose anchor was written. None that was written before, or that returned, is lost.
theorem committed_loads {archives : String → Option C} {events' : List (Event C)}
    (hp : Plain target) (r : Run (Step target requireAnchor) (empty archives) events s)
    (r' : Run (Step target requireAnchor) s events' s')
    (hn : (events ++ events').length ≤ u64Max) (hd : s'.Distinct) :
    (∀ c ∈ s'.committed.head?, ∀ requireAnchor, s'.data.load target requireAnchor 0 =
      decode s'.archives (some (c.anchor target)) c.content) ∧
    (∀ c ∈ s.committed, ∃ c' ∈ s'.committed.head?,
      c.sequence ≤ c'.sequence ∧ (c.sequence = c'.sequence → c = c')) ∧
    (∀ c ∈ s.returned, c ∈ s.committed) ∧ (s'.phase = .idle → s'.sequence = s'.last) := by
  have h := (Sound.empty.run hp hd (r.trans r') (by simpa [last, empty] using hn)).left
  have hs : s.Sound target := by
    have later := later_of_run r'
    refine (Sound.empty.run hp (later.distinct hd) r ?_).left
    rw [List.length_append] at hn
    simp only [last, empty, List.head?_nil, Option.map_none, Option.getD_none]
    omega
  refine ⟨fun c hc _ => h.load hp hd hc, fun c hc => ?_, hs.returned, fun hidle => ?_⟩
  · exact h.le_head ((later_of_run r').committed.subset hc)
  · have := h.phase
    rwa [InPhase, hidle] at this

end

-- A commit whose process dies before it's mirrored, after one that returned.
def sampleEvents : List (Event Sample) :=
  [.start true, .begin (.state 1 "one"), .generation true, .anchor true, .mirror true, .finish]

def sampleEvents' : List (Event Sample) :=
  [.begin (.state 2 "two"), .generation true, .anchor true, .crash]

theorem committed_loads_sample : ∃ s s' : Storage Sample,
    Run (Step "state.json" true) (empty fun _ => none) sampleEvents s ∧
    Run (Step "state.json" true) s sampleEvents' s' ∧
    s'.file "state.json" = some (.state 1 "one") ∧
    s'.data.load "state.json" true 0 = .ok (2, "two") := by
  have h : ((sampleEvents ++ sampleEvents').foldlM
      (step? "state.json" true) (empty fun _ => none)).map
      (fun s : Storage Sample => (s.committed, s.file "state.json")) =
      some ([⟨2, Sample.state 2 "two"⟩, ⟨1, .state 1 "one"⟩], some (.state 1 "one")) := by
    decide +kernel
  obtain ⟨s', h, he⟩ := Option.map_eq_some_iff.mp h
  obtain ⟨hc, hf⟩ := Prod.mk.injEq .. ▸ he
  obtain ⟨s, r, r'⟩ := (Run.of_foldlM h).split
  have hd : s'.Distinct := by
    rw [Distinct, hc]
    decide
  have hl := (committed_loads (by simp [Plain]) r r' (by decide) hd).left ⟨2, .state 2 "two"⟩
    (by rw [hc]; rfl) true
  exact ⟨s, s', r, r', hf, hl.trans rfl⟩

end Storage

end Billing
