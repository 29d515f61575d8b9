import Superkiro.Billing.Loader
import Superkiro.Lib.Script

-- A backup is put in place of the files the gateway keeps, or else the old ones are put back.
namespace Deploy

open Billing (DataDir LoadError Sample SnapshotAnchor StateFiles anchorName)

-- The files that are prepared beside the ones they're going to replace.
inductive Temp
  | snapshot
  | anchor
  | generation
  deriving DecidableEq

-- A file of the data directory. Names of temporary files end in the number of the process, and no
-- other file has one.
inductive File
  | live (name : String)
  | temp (t : Temp)
  | rollback (name : String)
  deriving DecidableEq

-- The commands that may fail. No command is run twice.
inductive Command
  | verify
  | mkdir
  | save (name : String)
  | record
  | copy (t : Temp)
  | chmod
  | chown
  | readable (t : Temp)
  | publish (t : Temp)
  | removeTemps
  | rollbackCopy (name : String)
  | rollbackMove (name : String)
  | rollbackClear (name : String)
  | rollbackRemove (name : String)
  | removeGeneration
  | clearTemps
  deriving DecidableEq

abbrev Dir (C : Type) := File → Option C

namespace Dir

variable {C : Type} (d : Dir C)

def put (f : File) (content : Option C) : Dir C := Function.update d f content

def move (f g : File) : Dir C := (d.put g (d f)).put f none

def remove (f : File) : Dir C := d.put f none

def removeTemps : Dir C := ((d.remove (.temp .snapshot)).remove (.temp .anchor))

def live (name : String) : Option C := d (.live name)

-- The directory as the gateway finds it.
def data (archives : String → Option C) : DataDir C := ⟨d.live, archives⟩

end Dir

-- A backup, with the files beside it.
structure Bundle (C : Type) where
  snapshot : C
  anchor   : C
  files    : String → Option C

structure Outcome (C : Type) where
  dir       : Dir C
  locked    : Bool
  succeeded : Bool

-- What's known before anything is changed.
structure Plan (C : Type) where
  target     : String
  -- The generation the old anchor names. It's empty without one.
  old        : String
  snapshot   : C
  anchor     : C
  generation : Option (String × C)
  -- The files that were there before, and the names that had no file.
  saved      : List (String × Option C)

def nameChar (c : Char) : Bool := c.isAlphanum || c = '.' || c = '_' || c = '-'

def validName (name : String) : Bool :=
  name ≠ "" && name.toList.all nameChar && name.toList.head? ≠ some '.'

def stageName : String := "billing_state.json"

section

variable {C σ : Type} [StateFiles C σ] (generationFile : C → Option String)
  (fails : Command → Bool)

-- Names are kept once each, where they're first.
def rollbackNames (old new target : String) : List String :=
  ([old, new, target, anchorName target].filter (· ≠ "")).eraseDups

-- The live files are saved. The generation that's named has to be there.
def saveFiles (d : Dir C) (old : String) : List String → Option (List (String × Option C))
  | []            => some []
  | name :: names =>
    match d.live name with
    | some content =>
      if fails (.save name) then none
      else (saveFiles d old names).map ((name, some content) :: ·)
    | none =>
      if name = old then none else (saveFiles d old names).map ((name, none) :: ·)

-- The backup's generation, if it names one.
def Bundle.generation (b : Bundle C) : Option (Option (String × C)) :=
  match generationFile b.anchor with
  | none      => none
  | some ""   => some none
  | some name =>
    if validName name then (b.files name).map fun content => some (name, content) else none

-- The backup in a directory of its own.
def Bundle.stage (b : Bundle C) (generation : Option (String × C)) : DataDir C where
  file name :=
    match generation.filter (·.1 = name) with
    | some (_, content) => some content
    | none =>
      if name = stageName then some b.snapshot
      else if name = anchorName stageName then some b.anchor
      else none

-- The name of the live generation. There's none where it can't be read.
def oldGeneration (d : Dir C) (target : String) : Option String :=
  match d.live (anchorName target) with
  | none      => some ""
  | some text => (generationFile text).filter fun name => name = "" || validName name

-- All that's done before anything is changed. Where something is amiss, the restore ends there.
def prepare (d : Dir C) (b : Bundle C) (target : String) : Option (Plan C) := do
  let generation ← b.generation generationFile
  guard (!fails .verify)
  let _ ← ((b.stage generation).load stageName false 0).toOption
  let old ← oldGeneration generationFile d target
  guard (!fails .mkdir)
  let saved ← saveFiles fails d old (rollbackNames old ((generation.map (·.1)).getD "") target)
  guard (!fails .record)
  return ⟨target, old, b.snapshot, b.anchor, generation, saved⟩

def copies (t : Temp) (content : C) : Command × (Dir C → Dir C) :=
  (.copy t, fun d => d.put (.temp t) (some content))

def checks (command : Command) : Command × (Dir C → Dir C) := (command, id)

def publishes (t : Temp) (name : String) : Command × (Dir C → Dir C) :=
  (.publish t, fun d => d.move (.temp t) (.live name))

namespace Plan

variable (p : Plan C)

-- The temporary files are prepared.
def stageCommands : List (Command × (Dir C → Dir C)) :=
  [copies .snapshot p.snapshot, copies .anchor p.anchor] ++
  (p.generation.map fun g => copies .generation g.2).toList ++
  [checks .chmod, checks .chown, checks (.readable .snapshot), checks (.readable .anchor)] ++
  (p.generation.map fun _ => checks (.readable .generation)).toList

-- The generation is published before its anchor.
def publishCommands : List (Command × (Dir C → Dir C)) :=
  (p.generation.map fun g => publishes .generation g.1).toList ++
  [publishes .snapshot p.target, publishes .anchor (anchorName p.target)]

structure Undo (C : Type) where
  dir    : Dir C
  failed : Bool := false
  -- What the old anchor says is there again.
  ready  : Bool := true

-- The old anchor can't do without this file.
def authority (name : String) : Bool :=
  name = p.old || (p.old = "" && name = p.target)

def undoFile (u : Undo C) (name : String) : Option C → Undo C
  | some content =>
    let copied := !fails (.rollbackCopy name)
    let moved := copied && !fails (.rollbackMove name)
    let cleared := !fails (.rollbackClear name)
    let dir := if copied then u.dir.put (.rollback name) (some content) else u.dir
    let dir := if moved then dir.move (.rollback name) (.live name) else dir
    { dir    := if cleared then dir.remove (.rollback name) else dir
      failed := u.failed || !moved || !cleared
      ready  := u.ready && (moved || !p.authority name) }
  | none =>
    if name = p.target || name = anchorName p.target then
      if fails (.rollbackRemove name) then { u with failed := true }
      else { u with dir := u.dir.remove (.live name) }
    else u

-- The old anchor isn't put back without what it says.
def undo (u : Undo C) (file : String × Option C) : Undo C :=
  if file.1 = anchorName p.target && !u.ready then u else p.undoFile fails u file.1 file.2

-- A generation that wasn't there before is removed last.
def undoGeneration (u : Undo C) : Undo C :=
  match p.generation with
  | some (name, _) =>
    if !u.failed && p.saved.any fun file => file.1 = name && file.2.isNone then
      if fails .removeGeneration then { u with failed := true }
      else { u with dir := u.dir.remove (.live name) }
    else u
  | none => u

def undoTemps (u : Undo C) : Undo C :=
  if fails .clearTemps then { u with failed := true }
  else { u with dir := u.dir.removeTemps.remove (.temp .generation) }

-- The lock is kept where the old files may not be back.
def emergencyRollback (publicationStarted : Bool) (d : Dir C) : Outcome C :=
  let u : Undo C := { dir := d }
  let u := if publicationStarted then p.undoGeneration fails (p.saved.foldl (p.undo fails) u) else u
  let u := undoTemps fails u
  ⟨u.dir, u.failed, false⟩

-- A command that fails once all is published ends the restore as it is.
def carryOut (d : Dir C) : Outcome C :=
  match Script.run fails p.stageCommands d with
  | .error d => p.emergencyRollback fails false d
  | .ok d =>
    match Script.run fails p.publishCommands d with
    | .error d => p.emergencyRollback fails true d
    | .ok d    => if fails .removeTemps then ⟨d, false, false⟩ else ⟨d.removeTemps, false, true⟩

end Plan

def restore (d : Dir C) (b : Bundle C) (target : String) : Outcome C :=
  match prepare generationFile fails d b target with
  | none   => ⟨d, false, false⟩
  | some p => p.carryOut fails d

-- An anchor's there, and so is what it says.
def Anchored (live : String → Option C) (target : String) : Prop :=
  ∃ text anchor, live (anchorName target) = some text ∧ StateFiles.readAnchor text = some anchor ∧
    ∃ name, (name = target ∨ anchor.generationFile = some name) ∧
      ∃ content, live name = some content ∧ StateFiles.sha256 content = anchor.checksum

-- A restore that succeeds leaves what's loaded as the backup. One that fails leaves all as it was,
-- or keeps the lock and leaves no anchor without what it says if that was there.
def Right (archives : String → Option C) (d : Dir C) (b : Bundle C) (target : String)
    (o : Outcome C) : Prop :=
  if o.succeeded then
    ∃ generation state, b.generation generationFile = some generation ∧
      (b.stage generation).load stageName false 0 = .ok state ∧
      ∀ requireAnchor, (o.dir.data archives).load target requireAnchor 0 = .ok state
  else
    (o.locked = false ∧ o.dir = d) ∨
    (o.locked = true ∧
      (Anchored d.live target → (o.dir.live (anchorName target)).isSome →
        Anchored o.dir.live target))

namespace Plan

variable (p : Plan C)

-- A file is published.
def reaches : Temp → Bool
  | .generation => p.generation.isSome && !fails (.publish .generation)
  | .snapshot   =>
    (p.generation.isNone || !fails (.publish .generation)) && !fails (.publish .snapshot)
  | .anchor     =>
    (p.generation.isNone || !fails (.publish .generation)) && !fails (.publish .snapshot) &&
      !fails (.publish .anchor)

-- The files once all is published that can be.
def placed (d : Dir C) (name : String) : Option C :=
  if name = anchorName p.target then
    if p.reaches fails .anchor then some p.anchor else d.live name
  else if name = p.target then
    if p.reaches fails .snapshot then some p.snapshot else d.live name
  else
    match p.generation.filter (·.1 = name) with
    | some (_, content) => if p.reaches fails .generation then some content else d.live name
    | none => d.live name

-- The rollback of a file takes effect.
def putsBack (d : Dir C) (name : String) : Bool :=
  if (d.live name).isSome then !fails (.rollbackCopy name) && !fails (.rollbackMove name)
  else (name = p.target || name = anchorName p.target) && !fails (.rollbackRemove name)

-- What's left of the files where the rollback of each takes effect or doesn't.
def left (d : Dir C) (name : String) : Option C :=
  if p.putsBack fails d name then d.live name else p.placed fails d name

-- The backup is what's there already.
def InPlace (d : Dir C) : Prop :=
  d.live p.target = some p.snapshot ∧ d.live (anchorName p.target) = some p.anchor ∧
  ∀ name content, p.generation = some (name, content) → d.live name = some content

-- No command fails once all is published, unless nothing was changed. Where the old anchor isn't
-- replaced, what it says is left.
structure Safe (d : Dir C) : Prop where
  committed : Script.succeeds fails p.stageCommands → p.reaches fails .anchor →
    fails .removeTemps → p.InPlace d
  undone    : Script.succeeds fails p.stageCommands → p.reaches fails .anchor = false →
    Anchored d.live p.target → Anchored (p.left fails d) p.target

end Plan

section

variable {generationFile fails} {d e : Dir C} {b : Bundle C} {target old name g : String}
  {names : List String} {p : Plan C} {t : Temp} {f f' : File} {content : C} {x : Option C}
  {saved : List (String × Option C)}

theorem Dir.put_self : d.put f x f = x := Function.update_self ..

theorem Dir.put_of_ne (h : f' ≠ f) : d.put f x f' = d f' := Function.update_of_ne h ..

theorem saveFiles_eq (h : saveFiles fails d old names = some saved) :
    saved = names.map (fun name => (name, d.live name)) ∧
      ∀ name ∈ names, name = old → (d.live name).isSome := by
  induction names generalizing saved
  case nil =>
    cases h
    exact ⟨rfl, nofun⟩
  case cons name names hi =>
    rw [saveFiles] at h
    rw [List.forall_mem_cons]
    split at h
    case h_1 content hc =>
      split at h
      case isTrue => cases h
      case isFalse =>
        obtain ⟨saved, hs, rfl⟩ := Option.map_eq_some_iff.mp h
        obtain ⟨rfl, ho⟩ := hi hs
        rw [List.map_cons, hc]
        exact ⟨rfl, fun _ => rfl, ho⟩
    case h_2 hc =>
      split at h
      case isTrue => cases h
      case isFalse hne =>
        obtain ⟨saved, hs, rfl⟩ := Option.map_eq_some_iff.mp h
        obtain ⟨rfl, ho⟩ := hi hs
        rw [List.map_cons, hc]
        exact ⟨rfl, fun he => absurd he hne, ho⟩

theorem mem_rollbackNames {new : String} : name ∈ rollbackNames old new target ↔
    name ≠ "" ∧ (name = old ∨ name = new ∨ name = target ∨ name = anchorName target) := by
  simp only [rollbackNames, List.mem_eraseDups, List.mem_filter, List.mem_cons, List.not_mem_nil,
    or_false, decide_eq_true_eq]
  exact and_comm

-- What's known of a restore that's going to change files.
structure Prepared (generationFile : C → Option String) (d : Dir C) (b : Bundle C)
    (target : String) (p : Plan C) : Prop where
  target_eq   : p.target = target
  snapshot_eq : p.snapshot = b.snapshot
  anchor_eq   : p.anchor = b.anchor
  generation  : b.generation generationFile = some p.generation
  verified    : ∃ state, (b.stage p.generation).load stageName false 0 = .ok state
  old_eq      : oldGeneration generationFile d target = some p.old
  saved_eq    : p.saved = (rollbackNames p.old ((p.generation.map (·.1)).getD "") target).map
    fun name => (name, d.live name)
  present     : p.old ≠ "" → (d.live p.old).isSome

theorem prepared_of_prepare (h : prepare generationFile fails d b target = some p) :
    Prepared generationFile d b target p := by
  simp only [prepare, Option.bind_eq_bind, Option.bind_eq_some_iff] at h
  obtain ⟨generation, hg, _, _, state, hv, old, ho, _, _, saved, hs, _, _, h⟩ := h
  cases h
  obtain ⟨hs, hp⟩ := saveFiles_eq hs
  refine ⟨rfl, rfl, rfl, hg, ⟨state, Except.toOption_eq_some.mp hv⟩, ho, hs, fun hn => ?_⟩
  exact hp old (mem_rollbackNames.mpr ⟨hn, .inl rfl⟩) rfl

-- No file of this restore is there yet.
structure Dir.Clean (d : Dir C) : Prop where
  temp     : ∀ t, d (.temp t) = none
  rollback : ∀ name, d (.rollback name) = none

-- Only the temporary files differ.
structure Dir.Beside (d e : Dir C) : Prop where
  live     : e.live = d.live
  rollback : ∀ name, e (.rollback name) = d (.rollback name)

theorem Dir.Beside.put (h : d.Beside e) : d.Beside (e.put (.temp t) x) where
  live       := by rw [← h.live]; funext name; exact put_of_ne nofun
  rollback n := by rw [← h.rollback n]; exact put_of_ne nofun

theorem Dir.eq_of_beside (h : d.Beside e) (hd : d.Clean) (ht : ∀ t, e (.temp t) = none) :
    e = d := by
  funext f
  cases f
  case live name => exact congrFun h.live name
  case temp t => exact (ht t).trans (hd.temp t).symm
  case rollback name => exact h.rollback name

theorem stageCommands_beside :
    ∀ c ∈ p.stageCommands, ∀ e, d.Beside e → d.Beside (c.2 e) := by
  intro c hc e h
  have hx : (∃ t content, c = copies t content) ∨ ∃ command, c = checks command := by
    cases hg : p.generation <;>
      simp only [Plan.stageCommands, hg, Option.map_none, Option.map_some, Option.toList_none,
        Option.toList_some, List.append_nil, List.cons_append, List.nil_append, List.mem_cons,
        List.not_mem_nil, or_false] at hc <;> grind
  cases hx
  case inl hx =>
    obtain ⟨t, content, rfl⟩ := hx
    exact h.put
  case inr hx =>
    obtain ⟨command, rfl⟩ := hx
    exact h

-- All is prepared.
structure Plan.Staged (p : Plan C) (d e : Dir C) : Prop extends Dir.Beside d e where
  snapshot   : e (.temp .snapshot) = some p.snapshot
  anchor     : e (.temp .anchor) = some p.anchor
  generation : e (.temp .generation) = p.generation.map (·.2)

theorem Plan.staged (hd : d.Clean) : p.Staged d (Script.effect p.stageCommands d) where
  toBeside   := Script.effect_preserves stageCommands_beside ⟨rfl, fun _ => rfl⟩
  snapshot   := by
    cases hg : p.generation <;>
      simp [Plan.stageCommands, Script.effect, copies, checks, Dir.put, hg]
  anchor     := by
    cases hg : p.generation <;>
      simp [Plan.stageCommands, Script.effect, copies, checks, Dir.put, hg]
  generation := by
    cases hg : p.generation <;>
      simp [Plan.stageCommands, Script.effect, copies, checks, Dir.put, hg, hd.temp]

@[simp]
theorem Dir.live_move : (d.move (.temp t) (.live name)).live = Function.update d.live name (d (.temp t)) := by
  funext m
  simp [move, put, live, Function.update_apply]

@[simp]
theorem Dir.move_temp {t' : Temp} :
    d.move (.temp t) (.live name) (.temp t') = if t' = t then none else d (.temp t') := by
  simp [move, put, Function.update_apply]

@[simp]
theorem Dir.move_rollback {n : String} :
    d.move (.temp t) (.live name) (.rollback n) = d (.rollback n) := by
  simp [move, put]

-- A backup's generation has a name of its own.
structure Plan.Named (p : Plan C) : Prop where
  target     : p.target ≠ ""
  generation : ∀ g ∈ p.generation, g.1 ≠ "" ∧ g.1 ≠ p.target ∧ g.1 ≠ anchorName p.target

theorem anchorName_ne : anchorName target ≠ target := by
  intro h
  have := congrArg String.length h
  simp [anchorName] at this

-- What's published up to the first failure is in place, and the rest is as it was.
theorem Plan.published (hs : p.Staged d e) (hd : d.Clean) (hn : p.Named) :
    ∃ e', Script.run fails p.publishCommands e =
        (if p.reaches fails .anchor then .ok e' else .error e') ∧
      e'.live = p.placed fails d ∧ (∀ name, e' (.rollback name) = none) ∧
      (p.reaches fails .anchor → ∀ t, e' (.temp t) = none) := by
  have hr : ∀ name, e (.rollback name) = none := fun n => (hs.rollback n).trans (hd.rollback n)
  have ha := @anchorName_ne p.target
  have hsg := hs.generation
  cases hg : p.generation
  case none =>
    rw [hg] at hsg
    cases h₁ : fails (.publish .snapshot) <;> cases h₂ : fails (.publish .anchor)
    all_goals
      simp only [publishCommands, hg, Option.map_none, Option.toList_none, List.nil_append,
        Script.run, publishes, h₁, h₂, reaches, Option.isNone_none, Bool.not_true, Bool.not_false,
        Bool.true_or, Bool.and_self, Bool.and_false, Bool.and_true, if_true, if_false,
        Bool.false_eq_true]
      refine ⟨_, rfl, funext fun name => ?_, by simpa using hr, ?_⟩
    all_goals first
      | simp [placed, reaches, hg, h₁, h₂, hs.live, hs.snapshot, hs.anchor, Function.update_apply]
        try grind
        done
      | intro _ t
        cases t <;> simp [hsg]
  case some g =>
    obtain ⟨g, content⟩ := g
    obtain ⟨-, hgt, hga⟩ := hn.generation _ hg
    rw [hg] at hsg
    cases h₀ : fails (.publish .generation) <;> cases h₁ : fails (.publish .snapshot) <;>
      cases h₂ : fails (.publish .anchor)
    all_goals
      simp only [publishCommands, hg, Option.map_some, Option.toList_some, List.cons_append,
        List.nil_append, Script.run, publishes, h₀, h₁, h₂, reaches, Option.isNone_some,
        Bool.not_true, Bool.not_false, Bool.false_or, Bool.and_self, Bool.and_false, Bool.and_true,
        if_true, if_false, Bool.false_eq_true]
      refine ⟨_, rfl, funext fun name => ?_, by simpa using hr, ?_⟩
    all_goals first
      | simp [placed, reaches, hg, h₀, h₁, h₂, hs.live, hs.snapshot, hs.anchor, hsg,
          Function.update_apply]
        try grind
        done
      | intro _ t
        cases t <;> simp

variable {u u' v : Plan.Undo C} {names' : List String}

-- What the rollback of some files comes to.
structure Plan.Undoes (p : Plan C) (fails : Command → Bool) (d : Dir C) (names : List String)
    (u u' : Undo C) : Prop where
  temp   : ∀ t, u'.dir (.temp t) = u.dir (.temp t)
  other  : ∀ name ∉ names, u'.dir.live name = u.dir.live name
  undone : ∀ name ∈ names, name ≠ anchorName p.target →
    u'.dir.live name = if p.putsBack fails d name then d.live name else u.dir.live name
  -- The old anchor is put back, or it's left where it wasn't replaced.
  anchor : u.dir.live (anchorName p.target) = d.live (anchorName p.target) →
    u'.dir.live (anchorName p.target) = d.live (anchorName p.target)
  failed : u'.failed = false → u.failed = false
  ready  : u'.failed = false → u.ready → u'.ready ∧ ∀ name ∈ names, p.putsBack fails d name ∨
    d.live name = none ∧ name ≠ p.target ∧ name ≠ anchorName p.target
  clean  : u'.failed = false → (∀ name, u.dir (.rollback name) = none) →
    ∀ name, u'.dir (.rollback name) = none

theorem Plan.Undoes.append (h : p.Undoes fails d names u v) (h' : p.Undoes fails d names' v u') :
    p.Undoes fails d (names ++ names') u u' where
  temp t := (h'.temp t).trans (h.temp t)
  other name hn := by
    rw [List.mem_append, not_or] at hn
    rw [h'.other name hn.right, h.other name hn.left]
  undone name hn ha := by
    by_cases hm' : name ∈ names'
    case pos =>
      rw [h'.undone name hm' ha]
      by_cases hm : name ∈ names
      case pos => cases hb : p.putsBack fails d name <;> simp [h.undone name hm ha, hb]
      case neg => rw [h.other name hm]
    case neg =>
      rw [h'.other name hm', h.undone name ((List.mem_append.mp hn).resolve_right hm') ha]
  anchor ha := h'.anchor (h.anchor ha)
  failed hf := h.failed (h'.failed hf)
  ready hf hr := by
    have ⟨hv, hb⟩ := h.ready (h'.failed hf) hr
    have ⟨hr', hb'⟩ := h'.ready hf hv
    exact ⟨hr', List.forall_mem_append.mpr ⟨hb, hb'⟩⟩
  clean hf hc := h'.clean hf (h.clean (h'.failed hf) hc)

theorem Plan.undoFile_undoes :
    p.Undoes fails d [name] u (p.undoFile fails u name (d.live name)) := by
  cases hd : d.live name
  case none =>
    have hd : d (.live name) = none := hd
    rw [undoFile]
    split
    case isTrue hn =>
      cases hf : fails (.rollbackRemove name) <;> constructor <;>
        simp [putsBack, hd, hf, hn, Dir.remove, Dir.put, Dir.live, Function.update_apply] <;> grind
    case isFalse hn =>
      constructor <;> simp [putsBack, hd, Dir.live] <;> grind
  case some content =>
    have hd : d (.live name) = some content := hd
    cases h₁ : fails (.rollbackCopy name) <;> cases h₂ : fails (.rollbackMove name) <;>
      cases h₃ : fails (.rollbackClear name) <;> constructor <;>
      simp [undoFile, putsBack, hd, h₁, h₂, h₃, Dir.remove, Dir.move, Dir.put, Dir.live,
        Function.update_apply] <;> grind

theorem Plan.undo_undoes : p.Undoes fails d [name] u (p.undo fails u (name, d.live name)) := by
  rw [undo]
  split
  case isTrue h =>
    simp only [Bool.and_eq_true, decide_eq_true_eq, Bool.not_eq_true'] at h
    obtain ⟨rfl, hr⟩ := h
    refine ⟨fun _ => rfl, fun _ _ => rfl, fun name hn hne => ?_, id, id, fun _ h => ?_, fun _ => id⟩
    · exact absurd (List.mem_singleton.mp hn) hne
    · rw [hr] at h
      cases h
  case isFalse => exact undoFile_undoes

theorem Plan.undoes : p.Undoes fails d names u
    ((names.map fun name => (name, d.live name)).foldl (p.undo fails) u) := by
  induction names generalizing u
  case nil =>
    exact ⟨fun _ => rfl, fun _ _ => rfl, nofun, id, id, fun _ h => ⟨h, nofun⟩, fun _ => id⟩
  case cons name names hi => exact undo_undoes.append hi

theorem Plan.undoGeneration_spec (hs : p.saved = names.map fun name => (name, d.live name)) :
    (∀ name, (∀ g ∈ p.generation, g.1 = name → (d.live name).isSome) →
      (p.undoGeneration fails u).dir.live name = u.dir.live name) ∧
    (∀ name, (p.undoGeneration fails u).dir (.rollback name) = u.dir (.rollback name)) ∧
    ((p.undoGeneration fails u).failed = false → u.failed = false ∧
      ∀ g ∈ p.generation, g.1 ∈ names → d.live g.1 = none →
        (p.undoGeneration fails u).dir.live g.1 = none) := by
  rw [undoGeneration]
  cases hg : p.generation
  case none => exact ⟨fun _ _ => rfl, fun _ => rfl, fun hf => ⟨hf, nofun⟩⟩
  case some g =>
    obtain ⟨g, content⟩ := g
    simp only [Option.mem_some_iff, forall_eq']
    split
    case isTrue h =>
      simp only [Bool.and_eq_true, Bool.not_eq_true', hs, List.any_map, List.any_eq_true,
        Function.comp_apply, decide_eq_true_eq] at h
      obtain ⟨hf, m, hm, rfl, hnone⟩ := h
      have hnone : d.live m = none := Option.isNone_iff_eq_none.mp hnone
      split
      case isTrue => exact ⟨fun _ _ => rfl, fun _ => rfl, nofun⟩
      case isFalse =>
        refine ⟨fun name hname => ?_, fun _ => by simp [Dir.remove, Dir.put],
          fun hf => ⟨hf, fun _ _ => ?_⟩⟩
        · refine Dir.put_of_ne fun he => ?_
          injection he with he
          have := hname he.symm
          rw [he, hnone] at this
          cases this
        · exact Dir.put_self
    case isFalse h =>
      refine ⟨fun _ _ => rfl, fun _ => rfl, fun hf => ⟨hf, fun hm hnone => absurd ?_ h⟩⟩
      simp only [hf, hs, Bool.not_false, Bool.true_and, List.any_map, List.any_eq_true]
      exact ⟨g, hm, by simp [hnone]⟩

theorem Plan.undoTemps_spec : (undoTemps fails u).dir.live = u.dir.live ∧
    (∀ name, (undoTemps fails u).dir (.rollback name) = u.dir (.rollback name)) ∧
    ((undoTemps fails u).failed = false → u.failed = false ∧
      ∀ t, (undoTemps fails u).dir (.temp t) = none) := by
  rw [undoTemps]
  split
  case isTrue => exact ⟨rfl, fun _ => rfl, nofun⟩
  case isFalse =>
    refine ⟨funext fun name => ?_, fun name => ?_, fun hf => ⟨hf, fun t => ?_⟩⟩
    · simp [Dir.live, Dir.removeTemps, Dir.remove, Dir.put]
    · simp [Dir.removeTemps, Dir.remove, Dir.put]
    · cases t <;> simp [Dir.removeTemps, Dir.remove, Dir.put]

-- The files that are published are among those that are rolled back.
theorem Prepared.mem (h : Prepared generationFile d b target p) (hn : p.Named)
    (hm : name = p.target ∨ name = anchorName p.target ∨ ∃ g ∈ p.generation, g.1 = name) :
    name ∈ rollbackNames p.old ((p.generation.map (·.1)).getD "") target := by
  rw [mem_rollbackNames, ← h.target_eq]
  rcases hm with rfl | rfl | ⟨g, hg, rfl⟩
  · exact ⟨hn.target, .inr (.inr (.inl rfl))⟩
  · refine ⟨fun he => ?_, .inr (.inr (.inr rfl))⟩
    have := congrArg String.length he
    simp [anchorName] at this
  · have hg' : p.generation = some g := hg
    exact ⟨(hn.generation g hg).left, .inr (.inl (by simp [hg']))⟩

theorem Plan.placed_of_ne (h : p.reaches fails .anchor = false) (ht : name ≠ p.target)
    (hg : ∀ g ∈ p.generation, g.1 ≠ name) : p.placed fails d name = d.live name := by
  have hf : p.generation.filter (·.1 = name) = none := by
    rw [Option.filter_eq_none_iff]
    exact fun g hm => by simpa using hg g hm
  simp [placed, h, ht, hf]

-- What's left of the files once a restore that failed has been rolled back.
theorem Prepared.rolledBack (h : Prepared generationFile d b target p) (hn : p.Named)
    (hd : d.Clean) (hr : p.reaches fails .anchor = false) (hl : e.live = p.placed fails d)
    (hc : ∀ name, e (.rollback name) = none) :
    ((p.emergencyRollback fails true e).locked = false →
      (p.emergencyRollback fails true e).dir = d) ∧
    ∀ name, (∀ g ∈ p.generation, g.1 = name → (d.live name).isSome) →
      (p.emergencyRollback fails true e).dir.live name = p.left fails d name := by
  have hu := @Plan.undoes C fails d (rollbackNames p.old ((p.generation.map (·.1)).getD "") target)
    p { dir := e }
  rw [← h.saved_eq] at hu
  have ⟨hgl, hgr, hgf⟩ := @Plan.undoGeneration_spec C fails d _ p
    (p.saved.foldl (p.undo fails) { dir := e }) h.saved_eq
  have ⟨htl, htr, htf⟩ := @Plan.undoTemps_spec C fails
    (p.undoGeneration fails (p.saved.foldl (p.undo fails) { dir := e }))
  simp only [Plan.emergencyRollback, if_true]
  generalize p.saved.foldl (p.undo fails) { dir := e } = u at *
  generalize p.undoGeneration fails u = v at *
  generalize Plan.undoTemps fails v = w at *
  have hleft (name) (hg : ∀ g ∈ p.generation, g.1 = name → (d.live name).isSome) :
      w.dir.live name = p.left fails d name := by
    rw [htl, hgl name hg, Plan.left]
    by_cases ha : name = anchorName p.target
    case pos =>
      have hp : p.placed fails d name = d.live name := by simp [Plan.placed, ha, hr]
      subst ha
      rw [hp, ite_self, hu.anchor ((congrFun hl _).trans hp)]
    case neg =>
      by_cases hm : name ∈ rollbackNames p.old ((p.generation.map (·.1)).getD "") target
      case pos => rw [hu.undone name hm ha, hl]
      case neg =>
        have hp : p.placed fails d name = d.live name := Plan.placed_of_ne hr
          (fun he => hm (h.mem hn (.inl he)))
          fun g hg he => hm (h.mem hn (.inr (.inr ⟨g, hg, he⟩)))
        rw [hu.other name hm, hl, hp, ite_self]
  refine ⟨fun hf => ?_, hleft⟩
  have ⟨hvf, ht⟩ := htf hf
  have ⟨huf, hvg⟩ := hgf hvf
  have ⟨_, hback⟩ := hu.ready huf rfl
  funext f
  cases f
  case temp t => exact (ht t).trans (hd.temp t).symm
  case rollback name =>
    rw [htr, hgr, hu.clean huf hc, hd.rollback]
  case live name =>
    change w.dir.live name = d.live name
    by_cases hg : ∀ g ∈ p.generation, g.1 = name → (d.live name).isSome
    case pos =>
      rw [hleft name hg, Plan.left]
      split
      case isTrue => rfl
      case isFalse hb =>
        have hnot (hm : name ∈ _) := (hback name hm).resolve_left hb
        apply Plan.placed_of_ne hr
        · exact fun he => (hnot (h.mem hn (.inl he))).right.left he
        · intro g hg' he
          have := hg g hg' he
          rw [(hnot (h.mem hn (.inr (.inr ⟨g, hg', he⟩)))).left] at this
          cases this
    case neg =>
      push Not at hg
      obtain ⟨g, hg, rfl, hnone⟩ := hg
      have hnone : d.live g.1 = none := by simpa using hnone
      rw [htl, hvg g hg (h.mem hn (.inr (.inr ⟨g, hg, rfl⟩))) hnone, hnone]

theorem Anchored.congr {live live' : String → Option C}
    (ha : live (anchorName target) = live' (anchorName target)) (ht : live target = live' target)
    (hg : ∀ text anchor name, live (anchorName target) = some text →
      StateFiles.readAnchor text = some anchor → anchor.generationFile = some name →
      live name = live' name) : Anchored live target → Anchored live' target := by
  rintro ⟨text, anchor, htext, hread, name, hname, content, hc, hs⟩
  refine ⟨text, anchor, ha ▸ htext, hread, name, hname, content, ?_, hs⟩
  rw [← hc]
  cases hname
  case inl he => rw [he, ht]
  case inr he => exact (hg text anchor name htext hread he).symm

-- What the program reads of an anchor, the restore reads of it, too.
def Reads (generationFile : C → Option String) : Prop :=
  ∀ text anchor, StateFiles.readAnchor text = some anchor →
    generationFile text = some (anchor.generationFile.getD "")

-- The name of a backup's generation is none of the snapshot's, where it's checked and where it
-- goes, nor of their anchors.
def Bundle.Named (generationFile : C → Option String) (b : Bundle C) (target : String) : Prop :=
  ∀ name content, b.generation generationFile = some (some (name, content)) →
    name ≠ target ∧ name ≠ anchorName target ∧ name ≠ stageName ∧ name ≠ anchorName stageName

theorem Bundle.generation_eq (h : b.generation generationFile = some (some (name, content))) :
    generationFile b.anchor = some name ∧ name ≠ "" := by
  rw [Bundle.generation] at h
  split at h
  case h_1 => cases h
  case h_2 => cases h
  case h_3 name' hne hn =>
    split at h
    case isTrue =>
      obtain ⟨content', _, he⟩ := Option.map_eq_some_iff.mp h
      cases he
      exact ⟨hn, hne⟩
    case isFalse => cases h

theorem Bundle.generation_of_name {generation : Option (String × C)}
    (h : b.generation generationFile = some generation) (hn : generationFile b.anchor = some name)
    (hne : name ≠ "") : ∃ content, generation = some (name, content) := by
  rw [Bundle.generation, hn] at h
  split at h
  case h_1 he => cases he
  case h_2 he => exact absurd (Option.some.inj he) hne
  case h_3 name' _ he =>
    cases he
    split at h
    case isTrue =>
      obtain ⟨content, _, he⟩ := Option.map_eq_some_iff.mp h
      exact ⟨content, he.symm⟩
    case isFalse => cases h

theorem Prepared.named (h : Prepared generationFile d b target p) (ht : target ≠ "")
    (hb : b.Named generationFile target) : p.Named where
  target := h.target_eq ▸ ht
  generation g hg := by
    have hg := h.generation.trans (congrArg some hg)
    rw [h.target_eq]
    exact ⟨(Bundle.generation_eq hg).right, (hb _ _ hg).left, (hb _ _ hg).right.left⟩

-- The generation that the old anchor names is there.
theorem Prepared.named_present (h : Prepared generationFile d b target p)
    (hr : Reads generationFile) {text : C} {anchor : SnapshotAnchor}
    (ht : d.live (anchorName target) = some text) (ha : StateFiles.readAnchor text = some anchor)
    (hg : anchor.generationFile = some name) : name = "" ∨ (d.live name).isSome := by
  have ho := h.old_eq
  rw [oldGeneration, ht] at ho
  simp only [hr text anchor ha, hg, Option.getD_some, Option.filter_some] at ho
  split at ho
  case isTrue =>
    injection ho with ho
    by_cases hn : name = ""
    case pos => exact .inl hn
    case neg => exact .inr (ho ▸ h.present (ho ▸ hn))
  case isFalse => cases ho

-- A backup that's published is loaded as it was checked.
theorem Prepared.loaded (h : Prepared generationFile d b target p)
    (hr : Reads generationFile) (hb : b.Named generationFile target)
    (hp : p.reaches fails .anchor) (hl : e.live = p.placed fails d)
    {archives : String → Option C} {requireAnchor : Bool} {state : σ}
    (hv : (b.stage p.generation).load stageName false 0 = .ok state) :
    (e.data archives).load target requireAnchor 0 = .ok state := by
  have hsnapshot : p.reaches fails .snapshot := by
    simp only [Plan.reaches, Bool.and_eq_true] at hp ⊢
    exact hp.left
  have hstage (m : String) (hm : ∀ g ∈ p.generation, g.1 ≠ m) :
      p.generation.filter (·.1 = m) = none := by
    rw [Option.filter_eq_none_iff]
    exact fun g hg => by simpa using hm g hg
  have hname (g) (hg : g ∈ p.generation) := hb g.1 g.2 (h.generation.trans (congrArg some hg))
  have ha : (b.stage p.generation).file (anchorName stageName) = some b.anchor := by
    simp [Bundle.stage, hstage _ fun g hg => (hname g hg).right.right.right, anchorName_ne]
  have hs : (b.stage p.generation).file stageName = some b.snapshot := by
    simp [Bundle.stage, hstage _ fun g hg => (hname g hg).right.right.left]
  have ha' : (e.data archives).file (anchorName target) = some b.anchor := by
    change e.live (anchorName target) = _
    simp [hl, Plan.placed, h.target_eq, hp, h.anchor_eq]
  have ht' : (e.data archives).file target = some b.snapshot := by
    change e.live target = _
    simp [hl, Plan.placed, h.target_eq, hsnapshot, h.snapshot_eq, anchorName_ne.symm]
  refine DataDir.load_congr ha ha' (hs.trans ht'.symm) (fun anchor name hread hgen => ?_) rfl hv
  have ⟨hread, hbad⟩ := DataDir.readSnapshotAnchor_eq_ok.mp hread
  have hne : name ≠ "" := by
    rintro rfl
    simp [hgen, DataDir.badGenerationName] at hbad
  have hfile : generationFile b.anchor = some name := by rw [hr _ _ hread, hgen, Option.getD_some]
  obtain ⟨content, hg⟩ := Bundle.generation_of_name h.generation hfile hne
  have ⟨htarget, hanchor, _⟩ := hname (name, content) hg
  have hreached : p.reaches fails .generation := by
    simp only [Plan.reaches, hg, Option.isNone_some, Option.isSome_some, Bool.false_or,
      Bool.true_and, Bool.and_eq_true] at hp ⊢
    exact hp.left.left
  change _ = e.live name
  simp [Bundle.stage, hl, Plan.placed, hg, h.target_eq, htarget, hanchor, hreached,
    Option.filter_some]

-- What the old anchor says is there after a rollback if it's left.
theorem Prepared.anchored (h : Prepared generationFile d b target p) (hn : p.Named)
    (hr : Reads generationFile) (hreach : p.reaches fails .anchor = false)
    (hleft : ∀ name, (∀ g ∈ p.generation, g.1 = name → (d.live name).isSome) →
      e.live name = p.left fails d name) :
    e.live (anchorName target) = d.live (anchorName target) ∧
      (Anchored e.live target ↔ Anchored (p.left fails d) target) := by
  have hanchor : p.left fails d (anchorName target) = d.live (anchorName target) := by
    simp [Plan.left, Plan.placed, hreach, h.target_eq]
  have ha := hleft (anchorName target) fun g hg he =>
    absurd (h.target_eq ▸ he) (hn.generation g hg).right.right
  have ht := hleft target fun g hg he =>
    absurd (h.target_eq ▸ he) (hn.generation g hg).right.left
  have hgen (text : C) (anchor : SnapshotAnchor) (name : String)
      (htext : d.live (anchorName target) = some text)
      (hread : StateFiles.readAnchor text = some anchor)
      (hname : anchor.generationFile = some name) : e.live name = p.left fails d name := by
    apply hleft
    rintro g hg rfl
    exact (h.named_present hr htext hread hname).resolve_left (hn.generation g hg).left
  refine ⟨ha.trans hanchor, ?_⟩
  constructor
  case mp =>
    exact Anchored.congr ha ht fun text anchor name htext =>
      hgen text anchor name (hanchor ▸ ha ▸ htext)
  case mpr =>
    exact Anchored.congr ha.symm ht.symm fun text anchor name htext hread hname =>
      (hgen text anchor name (hanchor ▸ htext) hread hname).symm

theorem Plan.reaches_all (h : p.reaches fails .anchor) : p.reaches fails .snapshot ∧
    ∀ g ∈ p.generation, p.reaches fails .generation := by
  simp only [reaches, Bool.and_eq_true] at h ⊢
  refine ⟨h.left, fun g hg => ?_⟩
  have hg : p.generation = some g := hg
  simpa [hg] using h.left.left

theorem Plan.placed_eq_live (hn : p.Named) (h : p.reaches fails .anchor) :
    p.placed fails d = d.live ↔ p.InPlace d := by
  have ⟨hs, hg⟩ := reaches_all h
  have ha := @anchorName_ne p.target
  constructor
  case mp =>
    intro he
    have hp (name) : d.live name = p.placed fails d name := (congrFun he name).symm
    refine ⟨?_, ?_, fun name content hgen => ?_⟩
    · simp [hp p.target, placed, ha.symm, hs]
    · simp [hp (anchorName p.target), placed, h]
    · have ⟨_, ht, hna⟩ := hn.generation _ hgen
      simp [hp name, placed, ht, hna, hgen, Option.filter_some, hg _ hgen]
  case mpr =>
    rintro ⟨ht, ha, hgen⟩
    funext name
    rw [placed]
    split
    case isTrue hna => rw [hna, ha]
    case isFalse =>
      split
      case isTrue hnt => rw [hnt, ht]
      case isFalse =>
        split
        case h_1 g content hf =>
          obtain ⟨hg', hname⟩ := Option.filter_eq_some_iff.mp hf
          rw [if_pos (hg _ hg'), hgen name content (by rw [hg', ← of_decide_eq_true hname])]
        case h_2 => rfl

theorem right_unpublished (hd : d.Clean) (h : d.Beside e) (archives : String → Option C) :
    Right generationFile archives d b target (p.emergencyRollback fails false e) := by
  have ⟨hl, hr, hf⟩ := @Plan.undoTemps_spec C fails { dir := e }
  have hlive : (p.emergencyRollback fails false e).dir.live = d.live := hl.trans h.live
  rw [Right]
  cases hw : (p.emergencyRollback fails false e).locked
  case false =>
    refine .inl ⟨rfl, Dir.eq_of_beside ⟨hlive, fun name => ?_⟩ hd (hf hw).right⟩
    exact (hr name).trans (h.rollback name)
  case true =>
    refine .inr ⟨rfl, fun ha _ => ?_⟩
    rwa [hlive]

theorem Dir.live_removeTemps : d.removeTemps.live = d.live := by
  funext name
  simp [live, removeTemps, remove, put]

-- A restore only succeeds once all is published.
theorem Plan.carriedOut (hn : p.Named) (hd : d.Clean) (h : (p.carryOut fails d).succeeded) :
    p.reaches fails .anchor ∧ (p.carryOut fails d).dir.live = p.placed fails d := by
  rw [carryOut] at h ⊢
  cases hs : Script.succeeds fails p.stageCommands
  case false =>
    obtain ⟨s, hrun, _⟩ :=
      Script.run_of_not_succeeds (s := d) stageCommands_beside hs ⟨rfl, fun _ => rfl⟩
    rw [hrun] at h
    cases h
  case true =>
    rw [Script.run_of_succeeds hs] at h ⊢
    obtain ⟨e', hrun, hl, _, _⟩ := @Plan.published C fails d _ p (p.staged hd) hd hn
    simp only [hrun] at h ⊢
    cases hreach : p.reaches fails .anchor
    case false =>
      rw [hreach] at h
      cases h
    case true =>
      rw [hreach] at h
      simp only [if_true] at h ⊢
      split at h
      case isTrue => cases h
      case isFalse hr =>
        rw [if_neg hr]
        exact ⟨trivial, Dir.live_removeTemps.trans hl⟩

-- What a restore that succeeds leaves is loaded as the backup.
theorem loads_of_succeeded (ht : target ≠ "") (hd : d.Clean) (hr : Reads generationFile)
    (hb : b.Named generationFile target)
    (h : (restore generationFile fails d b target).succeeded) :
    ∃ generation state, b.generation generationFile = some generation ∧
      (b.stage generation).load stageName false 0 = .ok state ∧ ∀ archives requireAnchor,
        ((restore generationFile fails d b target).dir.data archives).load target requireAnchor 0 =
          .ok state := by
  rw [restore] at h ⊢
  cases hp : prepare generationFile fails d b target
  case none =>
    rw [hp] at h
    cases h
  case some p =>
    rw [hp] at h
    have hprep := prepared_of_prepare hp
    obtain ⟨hreach, hlive⟩ := Plan.carriedOut (hprep.named ht hb) hd h
    obtain ⟨state, hv⟩ := hprep.verified
    exact ⟨p.generation, state, hprep.generation, hv, fun _ _ =>
      hprep.loaded hr hb hreach hlive hv⟩

end

end

namespace Sample

def generationFile : Sample → Option String
  | .anchor a => some (a.generationFile.getD "")
  | .json j   => (j.get? "generation_file").bind Json.asStr?
  | _         => none

theorem reads : Reads generationFile := by
  intro text anchor h
  cases text
  case anchor => cases h; rfl
  all_goals cases h

def dir : Dir Sample
  | .live "state.json"        => some (.state 8 "old")
  | .live "state.json.anchor" => some (.anchor ⟨2, 8, "old", some "state.json.gen_8"⟩)
  | .live "state.json.gen_8"  => some (.state 8 "old")
  | _                         => none

def bundle : Bundle Sample where
  snapshot := .state 7 "new"
  anchor   := .anchor ⟨2, 7, "new", some "state.json.gen_7"⟩
  files
    | "state.json.gen_7" => some (.state 7 "new")
    | _                  => none

theorem named : bundle.Named generationFile "state.json" := by
  intro name content h
  have hn := (Bundle.generation_eq h).left
  injection hn with hn
  subst hn
  decide

end Sample

end Deploy
