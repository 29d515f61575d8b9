import Superkiro.Deploy.Backup

-- What's captured is published with a manifest, verified, and put in place of a gateway's files.
namespace Deploy

open Billing (Commit Event SnapshotAnchor StateFiles Storage anchorName generationName
  maxSnapshotBytes u64Max)
open Billing.StateFiles (size sha256 anchorText)
open BackupFiles (json encode manifestText)

def maxManifestBytes : Nat := 16384

def bundlePrefix (identifier : String) : String := "billing_state_" ++ identifier

def snapshotName (identifier : String) : String := bundlePrefix identifier ++ ".json"

def manifestName (identifier : String) : String := bundlePrefix identifier ++ ".manifest.json"

def sidecarName (snapshotName : String) : String := snapshotName ++ ".sha256"

def sidecar (digest snapshotName : String) : String := digest ++ "  " ++ snapshotName ++ "\n"

def safeName (name : String) : Bool :=
  name ≠ "" && name.toList.all nameChar && name ≠ "." && name ≠ ".."

section

variable {C σ : Type} [BackupFiles C σ] [DecidableEq C]

def manifest (identifier createdAt : String) (payload anchor : C) : Manifest where
  identifier     := identifier
  createdAt      := createdAt
  snapshotFile   := snapshotName identifier
  snapshotSha256 := sha256 payload
  anchorSha256   := sha256 anchor

-- The files of a directory that's renamed to its name once they're written.
def publishBundle (identifier createdAt : String) (payload anchor : C) (generation : String) :
    List (String × C) :=
  let snapshot := snapshotName identifier
  [(snapshot, payload), (anchorName snapshot, anchor), (generation, payload),
    (sidecarName snapshot, encode (sidecar (sha256 payload) snapshot)),
    (manifestName identifier, manifestText (manifest identifier createdAt payload anchor))]

def directory (files : List (String × C)) (name : String) : Option C :=
  (files.find? (·.1 = name)).map (·.2)

def readSafe (files : String → Option C) (name : String) (limit : Nat) : Option C :=
  if safeName name then (readRegular files name limit).toOption else none

-- The snapshot that a manifest of this name lists, and the checksums of it and of its anchor.
def listed (C : Type) {σ : Type} [BackupFiles C σ] (name : String) (manifest : Json) :
    Option (String × Option String × Option String) := do
  guard ((manifest.get? "version").any (equals C 1))
  guard ((manifest.get? "status").bind Json.asStr? = some "completed")
  let snapshot ← (manifest.get? "snapshot_file").bind Json.asStr?
  guard (".json".toList <:+ snapshot.toList)
  guard (name.toList = snapshot.toList.take (snapshot.length - 5) ++ ".manifest.json".toList)
  guard ((manifest.get? "anchor_file").bind Json.asStr? = some (anchorName snapshot))
  return (snapshot, (manifest.get? "snapshot_sha256").bind Json.asStr?,
    (manifest.get? "anchor_sha256").bind Json.asStr?)

-- The sequence of a state, where its anchor is of the state and names its generation.
def anchored (C : Type) {σ : Type} [BackupFiles C σ] (digest : String) (state anchor : Json) :
    Option Nat := do
  let sequence ← (anchor.get? "sequence").bind validSequence
  guard ((anchor.get? "version").any (equals C 2))
  guard ((state.get? "version").any (equals C 2))
  guard ((state.get? "sequence").bind validSequence = some sequence)
  guard ((anchor.get? "checksum").bind Json.asStr? = some digest)
  guard ((anchor.get? "generation_file").bind Json.asStr? = some (generationName stageName sequence))
  return sequence

-- The sequence and the checksum of the bundle, where its files are what its manifest says.
def verifyBundle (files : String → Option C) (name : String) : Option Found := do
  let manifest ← json (← readSafe files name maxManifestBytes)
  let (snapshot, digest, anchorDigest) ← listed C name manifest
  let payload ← readSafe files snapshot maxSnapshotBytes
  let anchorBytes ← readSafe files (anchorName snapshot) maxAnchorBytes
  guard (digest = some (sha256 payload) && anchorDigest = some (sha256 anchorBytes))
  let sequence ← anchored C (sha256 payload) (← json payload) (← json anchorBytes)
  guard (readSafe files (generationName stageName sequence) maxSnapshotBytes = some payload)
  guard (readSafe files (sidecarName snapshot) maxAnchorBytes =
    some (encode (sidecar (sha256 payload) snapshot)))
  return ⟨sequence, sha256 payload⟩

-- The bundle as it's restored.
def bundleOf (files : String → Option C) (snapshot : String) : Option (Bundle C) := do
  let payload ← files snapshot
  let anchor ← files (anchorName snapshot)
  return ⟨payload, anchor, files⟩

variable {identifier createdAt name : String} {c c₀ : Commit C} {n : Nat} {payload anchorBytes : C}
  {file files : String → Option C} {limit : Nat} {content : C}

theorem suffix_ne {x y : String} (h : x ≠ y) :
    bundlePrefix identifier ++ x ≠ bundlePrefix identifier ++ y := by
  intro he
  have he := congrArg String.toList he
  rw [String.toList_append, String.toList_append, List.append_cancel_left_eq] at he
  exact h (String.toList_inj.mp he)

theorem anchorName_snapshotName :
    anchorName (snapshotName identifier) = bundlePrefix identifier ++ ".json.anchor" := by
  rw [anchorName, snapshotName, String.append_assoc]
  rfl

theorem sidecarName_snapshotName :
    sidecarName (snapshotName identifier) = bundlePrefix identifier ++ ".json.sha256" := by
  rw [sidecarName, snapshotName, String.append_assoc]
  rfl

theorem generationName_ne_bundle {x : String} :
    generationName stageName n ≠ bundlePrefix identifier ++ x := by
  intro h
  have h := congrArg (·[13]?) (congrArg String.toList h)
  rw [Billing.toList_generationName] at h
  simp [bundlePrefix, stageName] at h

theorem safeName_of (h : name.toList.all nameChar) (hn : 3 ≤ name.length) : safeName name := by
  have hne (x : String) (hx : x.length < 3) : name ≠ x := by
    rintro rfl
    omega
  simp [safeName, hne "" (by decide), hne "." (by decide), hne ".." (by decide), h]

theorem safeName_prefix {x : String} (hi : identifier.toList.all nameChar)
    (hx : x.toList.all nameChar) : safeName (bundlePrefix identifier ++ x) := by
  apply safeName_of
  · rw [String.toList_append, List.all_append, bundlePrefix, String.toList_append, List.all_append,
      hi, hx]
    decide
  · rw [bundlePrefix, String.length_append, String.length_append]
    have : "billing_state_".length = 14 := by decide
    omega

theorem safeName_generationName : safeName (generationName stageName n) := by
  apply safeName_of
  · rw [Billing.toList_generationName, List.all_append, List.all_append]
    have hd : (Nat.toDigits 10 n).all nameChar := by
      rw [List.all_eq_true]
      intro x hx
      have := Decimal.isDigit_toDigits x hx
      simp [nameChar, Char.isAlphanum, this]
    rw [hd]
    decide
  · rw [← String.length_toList, Billing.toList_generationName, List.length_append]
    have : stageName.toList.length = 18 := by decide
    omega

omit [DecidableEq C] in
theorem readSafe_eq (hs : safeName name) (hf : file name = some content)
    (hl : size content ≤ limit) : readSafe file name limit = some content := by
  rw [readSafe, if_pos hs, readRegular_eq hf hl]
  rfl

omit [DecidableEq C] in
theorem readSafe_eq_some (h : readSafe file name limit = some content) :
    file name = some content := by
  rw [readSafe] at h
  split at h
  case isTrue =>
    rw [Except.toOption_eq_some, readRegular] at h
    split at h
    case h_1 => cases h
    case h_2 content' hf =>
      split at h
      case isTrue => cases h; exact hf
      case isFalse => cases h
  case isFalse => cases h

-- The files of a bundle are no larger than they're read.
structure Fits (identifier createdAt : String) (c : Commit C) : Prop where
  chars    : identifier.toList.all nameChar
  manifest : size (manifestText (manifest identifier createdAt c.content
    (anchorText (c.anchor stageName) : C)) : C) ≤ maxManifestBytes
  sidecar  : size (encode (sidecar (sha256 c.content) (snapshotName identifier)) : C) ≤
    maxAnchorBytes

-- The bundle of a commit.
def bundleFiles (identifier createdAt : String) (c : Commit C) : List (String × C) :=
  publishBundle identifier createdAt c.content (anchorText (c.anchor stageName))
    (generationName stageName c.sequence)

theorem take_snapshotName :
    (snapshotName identifier).toList.take ((snapshotName identifier).length - 5) =
      (bundlePrefix identifier).toList := by
  rw [snapshotName, String.length_append, String.toList_append]
  have : ".json".length = 5 := by decide
  rw [this, Nat.add_sub_cancel]
  exact List.take_left

omit [DecidableEq C] in
theorem directory_bundleFiles (identifier createdAt : String) (c : Commit C) :
    let d := directory (bundleFiles identifier createdAt c)
    let anchor := anchorText (c.anchor stageName)
    d (snapshotName identifier) = some c.content ∧
    d (anchorName (snapshotName identifier)) = some anchor ∧
    d (generationName stageName c.sequence) = some c.content ∧
    d (sidecarName (snapshotName identifier)) =
      some (encode (sidecar (sha256 c.content) (snapshotName identifier))) ∧
    d (manifestName identifier) =
      some (manifestText (manifest identifier createdAt c.content anchor)) := by
  dsimp only
  have hne (x y : String) (h : x ≠ y) := @suffix_ne identifier x y h
  have hg (x : String) :=
    @generationName_ne_bundle identifier c.sequence x
  simp only [bundleFiles, directory, publishBundle, anchorName_snapshotName, sidecarName_snapshotName]
  simp [snapshotName, manifestName, hg _, (hg _).symm, hne]

omit [DecidableEq C] in
theorem listed_manifest : listed C (manifestName identifier)
    (manifest identifier createdAt payload anchorBytes).json =
      some (snapshotName identifier, some (sha256 payload), some (sha256 anchorBytes)) := by
  have hj : ".json".toList <:+ (snapshotName identifier).toList := by
    rw [snapshotName, String.toList_append]
    exact List.suffix_append ..
  simp only [String.reduceToList] at hj
  have hm : (manifestName identifier).toList =
      (bundlePrefix identifier).toList ++ ".manifest.json".toList := String.toList_append ..
  simp [listed, manifest, Manifest.json, Json.get?, Json.asStr?, equals, anchorName,
    take_snapshotName, hj, hm]

omit [DecidableEq C] in
theorem anchored_of (hr : Recorded c) {state : Json} (hj : json c.content = some state) :
    anchored C (sha256 c.content) state (anchorJson (c.anchor stageName)) = some c.sequence := by
  obtain ⟨_, he, hs, hv⟩ := hr.snapshot
  cases hj.symm.trans he
  have hsequence : (anchorJson (c.anchor stageName)).get? "sequence" = some (.num c.sequence) := rfl
  have hversion : (anchorJson (c.anchor stageName)).get? "version" = some (.num 2) := rfl
  have hchecksum : (anchorJson (c.anchor stageName)).get? "checksum" =
    some (.str (sha256 c.content)) := rfl
  have hgeneration : (anchorJson (c.anchor stageName)).get? "generation_file" =
    some (.str (generationName stageName c.sequence)) := rfl
  have hn := validSequence_num hr.bounds.left hr.bounds.right
  simp [anchored, hsequence, hversion, hchecksum, hgeneration, Json.asStr?, equals, hn, hs, hv]

theorem verifyBundle_publishBundle (h : Fits identifier createdAt c) (hr : Recorded c)
    (hfits : Storage.fits c.content) :
    verifyBundle (directory (bundleFiles identifier createdAt c)) (manifestName identifier) =
      some (found c) := by
  obtain ⟨hs, ha, hg, hd, hm⟩ : _ ∧ _ := directory_bundleFiles identifier createdAt c
  simp only [Storage.fits, Bool.and_eq_true, decide_eq_true_eq] at hfits
  have hn : safeName (snapshotName identifier) := safeName_prefix h.chars (by decide)
  have hna : safeName (anchorName (snapshotName identifier)) := by
    rw [anchorName_snapshotName]
    exact safeName_prefix h.chars (by decide)
  have hnd : safeName (sidecarName (snapshotName identifier)) := by
    rw [sidecarName_snapshotName]
    exact safeName_prefix h.chars (by decide)
  have hnm : safeName (manifestName identifier) := safeName_prefix h.chars (by decide)
  obtain ⟨state, hj, _⟩ := id hr.snapshot
  simp only [verifyBundle, Option.bind_eq_bind, Option.bind_eq_some_iff, Prod.exists]
  refine ⟨_, readSafe_eq hnm hm h.manifest, _, BackupFiles.json_manifestText, _, _, _,
    listed_manifest, _, readSafe_eq hn hs hfits.left, _, readSafe_eq hna ha hr.anchor, (), ?_,
    _, hj, _, BackupFiles.json_anchorText, _, anchored_of hr hj, (), ?_, (), ?_, rfl⟩
  · simp
  · simp [readSafe_eq safeName_generationName hg hfits.left]
  · simp [readSafe_eq hnd hd h.sidecar]

-- How the name of an anchor's generation is read.
structure ReadsAnchor (generationFile : C → Option String) : Prop where
  engine : Reads generationFile
  json   : ∀ {text j name}, json text = some j →
    (j.get? "generation_file").bind Json.asStr? = some name → generationFile text = some name

variable {generationFile : C → Option String} {fails : Command → Bool} {d : Dir C} {b : Bundle C}
  {stem digest : String} {f : Found} {state anchor : Json}

omit [DecidableEq C] in
theorem eq_of_listed {m : Json} {snapshot : String} {x : Option String × Option String}
    (h : listed C (stem ++ ".manifest.json") m = some (snapshot, x)) :
    snapshot = stem ++ ".json" := by
  simp only [listed, Option.bind_eq_bind, Option.bind_eq_some_iff] at h
  obtain ⟨_, _, _, _, _, _, _, hj, _, hn, _, _, h⟩ := h
  cases h
  rw [Option.guard_eq_some'] at hj hn
  obtain ⟨pre, hpre⟩ := hj
  have hl : snapshot.length = pre.length + 5 := by
    rw [← String.length_toList, ← hpre, List.length_append]
    rfl
  rw [hl, Nat.add_sub_cancel, ← hpre, List.take_left, String.toList_append,
    List.append_left_inj] at hn
  rw [← String.toList_inj, ← hpre, ← hn, String.toList_append]

omit [DecidableEq C] in
theorem anchored_eq (h : anchored C digest state anchor = some n) :
    (anchor.get? "sequence").bind validSequence = some n ∧
    (anchor.get? "checksum").bind Json.asStr? = some digest ∧
    (anchor.get? "generation_file").bind Json.asStr? = some (generationName stageName n) := by
  simp only [anchored, Option.bind_eq_bind, Option.bind_eq_some_iff] at h
  obtain ⟨m, hm, _, _, _, _, _, _, _, hc, _, hg, h⟩ := h
  cases h
  rw [Option.guard_eq_some'] at hc hg
  exact ⟨Option.bind_eq_some_iff.mpr hm, Option.bind_eq_some_iff.mpr hc,
    Option.bind_eq_some_iff.mpr hg⟩

-- What a bundle that's verified says of its files.
theorem verified_eq (h : verifyBundle files (stem ++ ".manifest.json") = some f)
    (hb : bundleOf files (stem ++ ".json") = some b) : sha256 b.snapshot = f.checksum ∧
      ∃ anchor, json b.anchor = some anchor ∧
        (anchor.get? "sequence").bind validSequence = some f.sequence ∧
        (anchor.get? "checksum").bind Json.asStr? = some f.checksum ∧
        (anchor.get? "generation_file").bind Json.asStr? =
          some (generationName stageName f.sequence) := by
  simp only [verifyBundle, Option.bind_eq_bind, Option.bind_eq_some_iff, Prod.exists] at h
  obtain ⟨_, _, _, _, snapshot, _, _, hs, payload, hp, anchorBytes, ha, _, _, _, _, anchor, hj, n, hn,
    _, _, _, _, h⟩ := h
  cases h
  cases eq_of_listed hs
  simp only [bundleOf, Option.bind_eq_bind, Option.bind_eq_some_iff] at hb
  obtain ⟨payload', hp', anchorBytes', ha', hb⟩ := hb
  cases hb
  cases (readSafe_eq_some hp).symm.trans hp'
  cases (readSafe_eq_some ha).symm.trans ha'
  exact ⟨rfl, anchor, hj, anchored_eq hn⟩

omit [DecidableEq C] in
-- What's staged is loaded as what was verified.
theorem load_stage {generation : Option (String × C)} {state : σ}
    (hg : ∀ g ∈ generation, g.1 = generationName stageName n)
    (hs : ∀ anchor, StateFiles.readAnchor b.anchor = some anchor →
      anchor.checksum = sha256 b.snapshot)
    (h : (b.stage generation).load stageName false 0 = .ok state) :
    ∃ anchor, StateFiles.readAnchor b.anchor = some anchor ∧
      StateFiles.decode (fun _ => none) (some anchor) b.snapshot = .ok state := by
  have hfilter (m : String) (hm : m ≠ generationName stageName n) :
      generation.filter (·.1 = m) = none := by
    rw [Option.filter_eq_none_iff]
    exact fun g hgen => by simpa [hg g hgen] using hm.symm
  have hsnapshot : (b.stage generation).file stageName = some b.snapshot := by
    simp [Bundle.stage, hfilter _ Billing.generationName_ne.symm]
  have hanchor : (b.stage generation).file (anchorName stageName) = some b.anchor := by
    simp [Bundle.stage, hfilter _ Billing.generationName_ne_anchorName.symm, anchorName_ne]
  simp only [Billing.DataDir.load, hanchor, Except.bind_eq_ok', Except.ensure_eq_ok,
    Except.exists_unit] at h
  obtain ⟨anchor, hr, _, _, content, hc, hd⟩ := h
  have hr := (Billing.DataDir.readSnapshotAnchor_eq_ok.mp hr).left
  refine ⟨anchor, hr, ?_⟩
  have he : content = b.snapshot := by
    simp only [Billing.DataDir.committedContent, Billing.DataDir.validTarget, hsnapshot,
      hs anchor hr, if_true, Except.bind_eq_ok', Except.ensure_eq_ok, Except.exists_unit] at hc
    obtain ⟨a, ⟨_, _, ha⟩, hc⟩ := hc
    cases ha
    cases hc
    rfl
  exact he ▸ hd

-- A restore of a bundle that's verified.
theorem verified_loads (hr : ReadsAnchor generationFile) (hd : d.Clean)
    (hv : verifyBundle files (stem ++ ".manifest.json") = some f)
    (hb : bundleOf files (stem ++ ".json") = some b)
    (h : (restore generationFile fails d b stageName).succeeded) :
    ∃ anchor state, StateFiles.readAnchor b.anchor = some anchor ∧ anchor.sequence = f.sequence ∧
      StateFiles.decode (fun _ => none) (some anchor) b.snapshot = .ok state ∧
      ∀ archives requireAnchor, ((restore generationFile fails d b stageName).dir.data
        archives).load stageName requireAnchor 0 = .ok state := by
  obtain ⟨hsnapshot, j, hj, hseq, hchecksum, hgen⟩ := verified_eq hv hb
  have hfile := hr.json hj hgen
  have hname {name content} (hg : b.generation generationFile = some (some (name, content))) :
      name = generationName stageName f.sequence :=
    Option.some.inj ((Bundle.generation_eq hg).left.symm.trans hfile)
  have hn : b.Named generationFile stageName := by
    intro name content hg
    rw [hname hg]
    exact ⟨Billing.generationName_ne, Billing.generationName_ne_anchorName,
      Billing.generationName_ne, Billing.generationName_ne_anchorName⟩
  have ⟨generation, state, hg, hl, hloads⟩ := loads_of_succeeded (by decide) hd hr.engine hn h
  have hread {anchor} (ha : StateFiles.readAnchor b.anchor = some anchor) :
      anchor.sequence = f.sequence ∧ anchor.checksum = sha256 b.snapshot := by
    obtain ⟨j', hj', hs', hc', _⟩ := BackupFiles.json_of_readAnchor ha
    cases hj.symm.trans hj'
    rw [hs', Option.bind_some] at hseq
    rw [hc', Option.bind_some] at hchecksum
    have he := (validSequence_eq hseq).left
    injection he with he
    injection hchecksum with hchecksum
    exact ⟨Int.ofNat.inj he, hchecksum.trans hsnapshot.symm⟩
  have hstaged : ∀ g ∈ generation, g.1 = generationName stageName f.sequence := by
    cases generation
    case none => nofun
    case some g' =>
      rintro _ ⟨⟩
      exact hname hg
  obtain ⟨anchor, ha, hdecode⟩ := load_stage hstaged (fun anchor ha => (hread ha).right) hl
  exact ⟨anchor, state, ha, (hread ha).left, hdecode, hloads⟩

-- Whatever the files of a directory are, a bundle that's verified and restored is what's loaded
-- from then on: the state that has the verified checksum, with the verified sequence.
theorem verified_restored (hr : ReadsAnchor generationFile) (hd : d.Clean)
    (hv : verifyBundle files (stem ++ ".manifest.json") = some f)
    (hb : bundleOf files (stem ++ ".json") = some b)
    (h : (restore generationFile fails d b stageName).succeeded) :
    sha256 b.snapshot = f.checksum ∧ ∃ anchor state,
      StateFiles.decode (fun _ => none) (some anchor) b.snapshot = .ok state ∧
      StateFiles.sequence C state = f.sequence ∧
      ∀ archives requireAnchor, ((restore generationFile fails d b stageName).dir.data
        archives).load stageName requireAnchor 0 = .ok state := by
  obtain ⟨anchor, state, _, hs, hdecode, hloads⟩ := verified_loads hr hd hv hb h
  exact ⟨(verified_eq hv hb).left, anchor, state, hdecode,
    (StateFiles.decode_sequence hdecode).trans hs, hloads⟩

omit [DecidableEq C] in
-- Where no command fails, the files are saved.
theorem exists_saveFiles {old : String} {names : List String} (hf : ∀ command, fails command = false)
    (hn : old ≠ "" → (d.live old).isSome) (hnames : ∀ name ∈ names, name ≠ "") :
    ∃ saved, saveFiles fails d old names = some saved := by
  induction names
  case nil => exact ⟨[], rfl⟩
  case cons name names hi =>
    rw [List.forall_mem_cons] at hnames
    obtain ⟨saved, hs⟩ := hi hnames.right
    rw [saveFiles]
    cases hl : d.live name
    case some content =>
      simp only [hf, Bool.false_eq_true, if_false, hs]
      exact ⟨_, rfl⟩
    case none =>
      have hne : name ≠ old := by
        rintro rfl
        have := hn hnames.left
        rw [hl] at this
        cases this
      simp only [if_neg hne, hs]
      exact ⟨_, rfl⟩

omit [DecidableEq C] in
theorem restore_succeeds {generation : Option (String × C)} {old target : String} {state : σ}
    (hf : ∀ command, fails command = false) (hg : b.generation generationFile = some generation)
    (hv : (b.stage generation).load stageName false 0 = .ok state)
    (ho : oldGeneration generationFile d target = some old)
    (hn : old ≠ "" → (d.live old).isSome) : (restore generationFile fails d b target).succeeded := by
  obtain ⟨saved, hs⟩ := @exists_saveFiles C fails d old
    (rollbackNames old ((generation.map (·.1)).getD "") target) hf hn
    fun name hm => (mem_rollbackNames.mp hm).left
  have hp : prepare generationFile fails d b target =
      some ⟨target, old, b.snapshot, b.anchor, generation, saved⟩ := by
    simp [prepare, hg, hv, ho, hs, hf, Except.toOption]
  have hcommands (commands : List (Command × (Dir C → Dir C))) :
      Script.succeeds fails commands := by simp [Script.succeeds, hf]
  rw [restore, hp]
  simp [Plan.carryOut, Script.run_of_succeeds (hcommands _), hf]

theorem nameChar_generationName : (generationName stageName n).toList.all nameChar := by
  have h := safeName_generationName (n := n)
  simp only [safeName, Bool.and_eq_true] at h
  exact h.left.left.right

theorem validName_generationName : validName (generationName stageName n) := by
  have h := safeName_generationName (n := n)
  simp only [safeName, Bool.and_eq_true] at h
  rw [validName, h.left.left.left, h.left.left.right, Billing.toList_generationName]
  simp [stageName]

omit [DecidableEq C] in
theorem exists_oldGeneration {s : Storage C} (h : s.Sound stageName) (hl : d.live = s.file)
    (hr : Reads generationFile) : ∃ old, oldGeneration generationFile d stageName = some old ∧
      (old ≠ "" → (d.live old).isSome) := by
  rw [oldGeneration, hl]
  cases hc : s.committed
  case nil =>
    rw [h.fresh hc]
    exact ⟨"", rfl, fun hn => absurd rfl hn⟩
  case cons c cs =>
    have hm : c ∈ s.committed.head? := by
      rw [hc]
      rfl
    have hg : generationFile (anchorText (c.anchor stageName)) =
      some (generationName stageName c.sequence) := hr _ _ StateFiles.read_anchorText
    have hv : validName (generationName stageName c.sequence) := validName_generationName
    refine ⟨generationName stageName c.sequence, ?_, fun _ => ?_⟩
    · rw [h.anchor c hm]
      simp [hg, hv]
    · rw [h.current c hm]
      rfl

omit [DecidableEq C] in
theorem generation_of_name (hg : generationFile b.anchor = some (generationName stageName n))
    (hf : b.files (generationName stageName n) = some content) :
    b.generation generationFile = some (some (generationName stageName n, content)) := by
  have hv : validName (generationName stageName n) := validName_generationName
  rw [Bundle.generation, hg]
  split
  case h_1 he => cases he
  case h_2 he =>
    rw [Option.some.injEq] at he
    simp [he, validName] at hv
  case h_3 name _ he =>
    cases he
    rw [if_pos hv, hf]
    rfl

omit [DecidableEq C] in
theorem bundleOf_files : bundleOf (directory (bundleFiles identifier createdAt c))
    (snapshotName identifier) = some ⟨c.content, anchorText (c.anchor stageName),
      directory (bundleFiles identifier createdAt c)⟩ := by
  obtain ⟨hs, ha, _⟩ : _ ∧ _ := directory_bundleFiles identifier createdAt c
  simp [bundleOf, hs, ha]

omit [DecidableEq C] in
-- A bundle of a commit is staged as the commit.
theorem load_commit {state : σ} (hs : Storage.fits c.content)
    (hd : StateFiles.decode (fun _ => none) (some (c.anchor stageName)) c.content = .ok state) :
    ((⟨c.content, anchorText (c.anchor stageName), file⟩ : Bundle C).stage
      (some (generationName stageName c.sequence, c.content))).load stageName false 0 =
        .ok state := by
  simp only [Storage.fits, Bool.and_eq_true, decide_eq_true_eq] at hs
  have ha : generationName stageName c.sequence ≠ anchorName stageName :=
    Billing.generationName_ne_anchorName
  have ht : generationName stageName c.sequence ≠ stageName := Billing.generationName_ne
  simp only [Billing.DataDir.load, Bundle.stage, Option.filter_some, ha, ht, decide_false,
    Bool.false_eq_true, if_false, anchorName_ne, if_true, Backup.plain_stageName.readSnapshotAnchor,
    Billing.DataDir.committedContent, Billing.DataDir.validTarget]
  simp [Except.ensure, bind, Except.bind, Commit.anchor, hs.left, hs.right]
  exact hd

-- What's captured while one gateway runs replaces the files of another, whatever that has written
-- and however its process has died. The bundle verifies; a restore of it that succeeds leaves the
-- captured commit; and it succeeds if no command fails and the commit is a state.
theorem captured_restored {requireAnchor requireAnchor' : Bool} {archives archives' : String → Option C}
    {events events' : List (Event C)} {s s' : Storage C} {actions : List (Action C)}
    {backup : Backup C} {text : C}
    (r₀ : Run (Storage.Step stageName requireAnchor) (Storage.empty archives) events s)
    (hc₀ : c₀ ∈ s.committed)
    (r : Run (Backup.Step (.of c₀) requireAnchor) ⟨s, .retry Capture.attempts⟩ actions backup)
    (hn : events.length + actions.length ≤ u64Max) (hi : backup.storage.Distinct)
    (hrecorded : ∀ c ∈ backup.storage.committed, Recorded c)
    (hfits : ∀ c ∈ backup.storage.committed, Fits identifier createdAt c)
    (hcaptured : backup.capture = .captured payload text name)
    (r' : Run (Storage.Step stageName requireAnchor') (Storage.empty archives') events' s')
    (hn' : events'.length ≤ u64Max) (hi' : s'.Distinct) (hd : d.Clean) (hl : d.live = s'.file)
    (hr : ReadsAnchor generationFile) :
    let files := directory (publishBundle identifier createdAt payload text name)
    ∃ c ∈ backup.storage.committed, (c = c₀ ∨ c₀.sequence < c.sequence) ∧
      verifyBundle files (manifestName identifier) = some (found c) ∧
      ∃ b, bundleOf files (snapshotName identifier) = some b ∧ ∀ fails,
        let o := restore generationFile fails d b stageName
        (o.succeeded → ∃ state, StateFiles.decode (fun _ => none) (some (c.anchor stageName))
            c.content = .ok state ∧
          ∀ archives requireAnchor, (o.dir.data archives).load stageName requireAnchor 0 =
            .ok state) ∧
        ((∀ command, fails command = false) → (∃ state, StateFiles.decode (fun _ => none)
          (some (c.anchor stageName)) c.content = .ok state) → o.succeeded) := by
  have hs := (Backup.Sound.of_runs r₀ hc₀ r hn hi hrecorded).left
  obtain ⟨c, hm, hle, rfl, rfl, rfl⟩ : ∃ c ∈ _, _ := hcaptured ▸ hs.capture
  have hfit := hs.storage.fits c hm
  have hv := verifyBundle_publishBundle (hfits c hm) (hrecorded c hm) hfit
  have hb : bundleOf (directory (bundleFiles identifier createdAt c)) _ = _ := bundleOf_files
  refine ⟨c, hm, hle, hv, _, hb, fun fails => ⟨fun ho => ?_, fun hf hstate => ?_⟩⟩
  · obtain ⟨anchor, state, ha, _, hdecode, hloads⟩ := verified_loads hr hd hv hb ho
    cases StateFiles.read_anchorText.symm.trans ha
    exact ⟨state, hdecode, hloads⟩
  · obtain ⟨state, hdecode⟩ := hstate
    have hs' := (Storage.Sound.empty.run Backup.plain_stageName hi' r'
      (by simpa [Storage.last, Storage.empty] using hn')).left
    obtain ⟨old, ho, hn⟩ := exists_oldGeneration hs' hl hr.engine
    have hgen : generationFile (anchorText (c.anchor stageName)) =
      some (generationName stageName c.sequence) := hr.engine _ _ StateFiles.read_anchorText
    obtain ⟨_, _, hfile, _⟩ : _ ∧ _ := directory_bundleFiles identifier createdAt c
    apply restore_succeeds hf
    · exact generation_of_name hgen hfile
    · exact load_commit hfit hdecode
    · exact ho
    · exact hn

end

namespace Sample

theorem readsAnchor : ReadsAnchor generationFile where
  engine := reads
  json {text j name} hj hn := by
    cases text
    case anchor a =>
      cases hj
      cases hg : a.generationFile <;> simp [anchorJson, hg, Json.get?, Json.asStr?] at hn
      simp [generationFile, hg, hn]
    case state => cases hj; cases hn
    case json j' => cases hj; exact hn
    case plain => cases hj

-- The bundle of the first commit.
def files : String → Option Billing.Sample := directory (bundleFiles "1" "now" first)

-- A directory in which another gateway's first commit was cut short.
def otherEvents : List (Event Billing.Sample) :=
  [.start true, .begin (.state 1 (digest 'a')), .generation true, .anchor true, .crash]

def restored (file : String → Option Billing.Sample) : Dir Billing.Sample
  | .live name => file name
  | _          => none

theorem clean {file : String → Option Billing.Sample} : (restored file).Clean :=
  ⟨fun _ => rfl, fun _ => rfl⟩

end Sample

open Sample in
theorem verified_restored_sample : ∃ b, bundleOf files "billing_state_1.json" = some b ∧
    ∀ requireAnchor, ((restore generationFile (fun _ => false) (restored fun _ => none) b
      stageName).dir.data fun _ => none).load stageName requireAnchor 0 = .ok (1, digest '1') := by
  have hv : verifyBundle files ("billing_state_1" ++ ".manifest.json") = some (found first) := by
    decide +kernel
  have hb : bundleOf files ("billing_state_1" ++ ".json") =
      some ⟨.state 1 (digest '1'), .anchor (first.anchor stageName), files⟩ := bundleOf_files
  have ho : (restore generationFile (fun _ => false) (restored fun _ => none)
      ⟨.state 1 (digest '1'), .anchor (first.anchor stageName), files⟩ stageName).succeeded := by
    decide +kernel
  obtain ⟨_, anchor, state, hdecode, _, hloads⟩ :=
    verified_restored readsAnchor clean hv hb ho
  refine ⟨_, hb, fun requireAnchor => (hloads _ _).trans ?_⟩
  simp only [StateFiles.decode] at hdecode
  split at hdecode
  case isTrue => exact hdecode.symm
  case isFalse => cases hdecode

open Sample in
theorem captured_restored_sample : ∃ s' : Storage Billing.Sample, ∃ b,
    Run (Storage.Step stageName true) (Storage.empty fun _ => none) otherEvents s' ∧
    bundleOf files "billing_state_1.json" = some b ∧ ∀ requireAnchor,
      ((restore generationFile (fun _ => false) (restored s'.file) b stageName).dir.data
        fun _ => none).load stageName requireAnchor 0 = .ok (1, digest '1') := by
  have h : (do
      let s ← firstEvents.foldlM (Storage.step? stageName true) (Storage.empty fun _ => none)
      let b ← [Action.read, .read, .read].foldlM (Backup.step? (.of first) true)
        ⟨s, .retry Capture.attempts⟩
      let s' ← otherEvents.foldlM (Storage.step? stageName true) (Storage.empty fun _ => none)
      return (s.committed, b.capture, b.storage.committed, s'.committed)) =
        some ([first], .captured first.content (.anchor (first.anchor stageName))
          (generationName stageName 1), [first], [⟨1, .state 1 (digest 'a')⟩]) := by decide +kernel
  simp only [Option.bind_eq_bind, Option.bind_eq_some_iff] at h
  obtain ⟨s, hs, b, hb, s', hs', h⟩ := h
  obtain ⟨hc₀, hcapture, hc, hc'⟩ : s.committed = _ ∧ b.capture = _ ∧ b.storage.committed = _ ∧
    s'.committed = _ := by simpa using h
  have hd : b.storage.Distinct := by
    rw [Storage.Distinct, hc]
    decide
  have hd' : s'.Distinct := by
    rw [Storage.Distinct, hc']
    decide
  have hr : ∀ c ∈ b.storage.committed, Recorded c := by
    rw [hc]
    simpa using recorded_first
  have hf : ∀ c ∈ b.storage.committed, Fits "1" "now" c := by
    rw [hc]
    simpa using ⟨by decide +kernel, by decide +kernel, by decide +kernel⟩
  obtain ⟨c, hm, _, _, b', hb', ho⟩ := captured_restored (Run.of_foldlM hs) (by rw [hc₀]; exact .head _)
    (Run.of_foldlM hb) (by decide) hd hr hf hcapture (Run.of_foldlM hs') (by decide) hd' clean
    rfl readsAnchor
  rw [hc, List.mem_singleton] at hm
  subst hm
  have ho := ho fun _ => false
  obtain ⟨state, hdecode, hloads⟩ := ho.left (ho.right (fun _ => rfl) ⟨_, rfl⟩)
  cases hdecode
  exact ⟨s', b', Run.of_foldlM hs', hb', fun _ => hloads _ _⟩

end Deploy
