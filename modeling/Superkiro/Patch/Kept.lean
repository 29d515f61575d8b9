import Superkiro.Patch.Rollback

-- What a rollback keeps of the edits made to a settings file since a takeover.
namespace Patch

-- The comments of a text that's read from within one of them.
def comments : Lexing → List Char → List Char → List (List Char)
  | .line, w, []                => [w]
  | .block, w, []               => [w]
  | _, _, []                    => []
  | .plain, _, '/' :: '/' :: cs => comments .line [] cs
  | .plain, _, '/' :: '*' :: cs => comments .block [] cs
  | .plain, _, '"' :: cs        => comments .string [] cs
  | .plain, _, _ :: cs          => comments .plain [] cs
  | .string, _, '\\' :: _ :: cs => comments .string [] cs
  | .string, _, '"' :: cs       => comments .plain [] cs
  | .string, _, _ :: cs         => comments .string [] cs
  | .line, w, '\n' :: cs        => w :: comments .plain [] cs
  | .line, w, c :: cs           => comments .line (w ++ [c]) cs
  | .block, w, '*' :: '/' :: cs => w :: comments .plain [] cs
  | .block, w, c :: cs          => comments .block (w ++ [c]) cs

def commentsOf (file : Option Bytes) : List (List Char) :=
  match decoded? (file.getD []) with
  | some cs => comments .plain [] cs
  | none    => []

example : commentsOf (some (Utf8.encode ['[', '/', '*', '1', '*', '/', ']', '/', '/', '"'])) =
    [['1'], ['"']] := by decide

namespace SettingsManager

variable {prior : PriorSettingsState} {file taken now : Option Bytes} {m m₀ m₁ : Values}
  {url : String} {names : Nat}

theorem mem_managedKeys_revertedValues (hp : prior.proxyBypassManaged) {host : Option String} :
    ∀ e ∈ revertedValues prior m host, e.1 ∈ managedKeys := by
  intro e he
  have hk : (revertedValues prior m host).map (·.1) = managedKeys := keys_revertedValues hp
  exact hk ▸ List.mem_map_of_mem he

-- A rollback leads to the values there were if those it doesn't manage are the same.
theorem reverted_eq_iff {host : Option String} (ht : TakenOver host m₀ m₁) (hr : Recorded m₀ prior)
    (hk : ∀ key ∈ managedKeys, m.lookup key = m₁.lookup key) :
    reverted prior host m = m₀ ↔ ∀ key ∉ managedKeys, m.lookup key = m₀.lookup key := by
  constructor
  · intro h key hn
    rw [← h, reverted_other hr.managed hn]
  · intro h
    refine reverted_takenOver hr ⟨h, fun key ours ho => ?_, ?_⟩
    · rw [hk key (preference_managed _ ho), ht.ours key ours ho]
    · rw [hk noProxy noProxy_managed]
      exact ht.hosts

section

variable [SettingsHost] {text : SettingsText}

-- The bytes that edits of nothing but managed members turn a text into.
def EditsTo (text : SettingsText) (bytes : Bytes) : Prop :=
  ∃ es : Edits, (∀ e ∈ es, e.1 ∈ managedKeys) ∧ bytes = (text.edit es).toBytes

-- Whether an answer to a rollback of `now`, that's `taken` with other edits, keeps them.
def KeepsEdits (file taken now : Option Bytes) (text : SettingsText) :
    Except SettingsError Rollback → Prop
  | .ok .delete        => ∀ c ∈ commentsOf now, c ∈ commentsOf taken
  | .ok (.write bytes) => EditsTo text bytes ∨ now = taken ∧ file = some bytes
  | .error _           => True

-- Edits that a rollback sees: those of a value that isn't managed, and of a file that's now read
-- past a missing comma. Without any, there are to be no others.
def Seen (file taken now : Option Bytes) (text : SettingsText) (m₀ m : Values) : Prop :=
  (∃ key ∉ managedKeys, m.lookup key ≠ m₀.lookup key) ∨
    match file with
    | none          => ∀ c ∈ commentsOf now, c ∈ commentsOf taken
    | some original => text.reading = .tolerant ∨ EditsTo text original ∨ now = taken

theorem verified_keepsEdits {es : Edits} (h : ∀ e ∈ es, e.1 ∈ managedKeys) :
    KeepsEdits file taken now text ((verifiedBytes (text.edit es) m).map .write) := by
  cases hv : verifiedBytes (text.edit es) m
  case error => exact trivial
  case ok => exact .inl ⟨es, h, (verifiedBytes_eq_ok hv).left⟩

-- The values of a file that was taken over.
theorem merged_takenOver (hm : mergeByok file names url = .ok (prior, taken))
    (h₀ : readSettings file = .ok m₀) (h₁ : parseSettingsBytes (taken.getD []) = .ok m₁) :
    TakenOver (gatewayHost (trimSlashes url)) m₀ m₁ ∧ Recorded m₀ prior ∧
      prior.hadSettingsFile = file.isSome ∧ prior.priorRaw = file := by
  simp only [mergeByok, Except.bind_eq_ok', Except.pure_eq_ok, Prod.mk.injEq] at hm
  obtain ⟨_, hc, bytes, hp, hpr, ht⟩ := hm
  rw [hpr] at hc
  obtain ⟨m₀', h₀', hr, hh, hb⟩ := captured hc
  rw [h₀] at h₀'
  cases h₀'
  refine ⟨?_, hr, hh, hb⟩
  simp only [planMerge, planTakeoverEdit, Except.bind_eq_ok'] at hp
  obtain ⟨_, _, text, hot, m, hot', es, he, hv⟩ := hp
  obtain ⟨_, hv⟩ := verifiedBytes_eq_ok hv
  have hv : parseSettingsBytes bytes = .ok (edit m es) := by
    have hk : text.reading = .kiro := reading_of_parse hot
    have hk : (text.edit es).reading = .kiro := hk
    rwa [hk] at hv
  rw [← ht, getD_writeIfChanged, hv] at h₁
  cases h₁
  have hm : m = m₀ := by
    cases file
    case none => exact Except.ok.inj (hot'.symm.trans h₀)
    case some => exact Except.ok.inj (hot'.symm.trans h₀)
  exact TakenOver.edited he hm

theorem planRevert_eq (ht : readForRollback (now.getD []) = .ok (text, m)) :
    let host := gatewayHost (trimSlashes url)
    planRevert now prior url =
      rollbackTo prior (text.edit (revertedValues prior m host)) (reverted prior host m) := by
  intro host
  rw [planRevert, ht]
  rfl

theorem rollbackTo_none (hh : prior.hadSettingsFile = false) :
    rollbackTo prior text ∅ = .ok .delete := by
  simp [rollbackTo, hh]

theorem rollbackTo_original {original : Bytes} (hh : prior.hadSettingsFile)
    (hb : prior.priorRaw = some original) (h₀ : parseSettingsBytes original = .ok m₀) :
    rollbackTo prior text m₀ =
      if text.reading = .kiro then .ok (.write original)
      else (verifiedBytes text m₀).map .write := by
  have ho : (parseSettingsBytes original).toOption = some m₀ := Except.toOption_eq_some.mpr h₀
  by_cases hk : text.reading = .kiro
  case pos => simp [rollbackTo, hh, hb, ho, hk, Option.filter]
  case neg => simp [rollbackTo, hh, hb, hk, Option.filter]

theorem rollbackTo_changed (hh : prior.hadSettingsFile = file.isSome) (hb : prior.priorRaw = file)
    (h₀ : readSettings file = .ok m₀) (hm : m ≠ m₀) :
    rollbackTo prior text m = (verifiedBytes text m).map .write := by
  cases file
  case none =>
    have he : m₀ = ∅ := Except.ok.inj h₀.symm
    simp [rollbackTo, hh, hb, he ▸ hm]
  case some original =>
    have ho : (parseSettingsBytes original).toOption = some m₀ := Except.toOption_eq_some.mpr h₀
    simp [rollbackTo, hh, hb, ho, Option.filter, hm.symm]

-- Whatever else is changed while a file is taken over is kept if and only if it's seen.
theorem rollback_keepsEdits_iff (hm : mergeByok file names url = .ok (prior, taken))
    (h₀ : readSettings file = .ok m₀) (h₁ : parseSettingsBytes (taken.getD []) = .ok m₁)
    (ht : readForRollback (now.getD []) = .ok (text, m))
    (hk : ∀ key ∈ managedKeys, m.lookup key = m₁.lookup key) :
    KeepsEdits file taken now text (planRevert now prior url) ↔
      Seen file taken now text m₀ m := by
  have ⟨hto, hr, hh, hb⟩ := merged_takenOver hm h₀ h₁
  have he := reverted_eq_iff hto hr hk
  have hes : ∀ e ∈ revertedValues prior m (gatewayHost (trimSlashes url)), e.1 ∈ managedKeys :=
    mem_managedKeys_revertedValues hr.managed
  rw [planRevert_eq ht]
  by_cases hv : ∃ key ∉ managedKeys, m.lookup key ≠ m₀.lookup key
  case pos =>
    have hn : reverted prior (gatewayHost (trimSlashes url)) m ≠ m₀ := by
      rw [ne_eq, he]
      simpa using hv
    rw [rollbackTo_changed hh hb h₀ hn]
    exact iff_of_true (verified_keepsEdits hes) (.inl hv)
  case neg =>
    rw [he.mpr (by simpa using hv)]
    unfold Seen
    rw [or_iff_right hv]
    cases file
    case none =>
      have he : m₀ = ∅ := Except.ok.inj h₀.symm
      rw [he, rollbackTo_none hh]
      rfl
    case some original =>
      have hedit : (text.edit (revertedValues prior m (gatewayHost (trimSlashes url)))).reading =
          text.reading := rfl
      rw [rollbackTo_original hh hb h₀, hedit]
      cases hread : text.reading
      case kiro => simp only [if_true, KeepsEdits, reduceCtorEq, false_or, and_true]
      case tolerant => exact iff_of_true (verified_keepsEdits hes) (.inl rfl)

end

end SettingsManager

-- The host that knows a file of one proxy exception, with a comment above it or without.
namespace Noted

open SettingsManager

def note : List Char := ['/', '/', ' ', 'm', 'i', 'n', 'e', '\n']

def noted (b : Bool) (text : String) : List Char := (if b then note else []) ++ text.toList

def isNoted (cs : List Char) : Bool := note.isPrefixOf cs

def unnoted (cs : List Char) : List Char := if isNoted cs then cs.drop note.length else cs

def afterLine : List Char → List Char
  | '\n' :: cs => cs
  | cs         => cs

scoped instance host : SettingsHost where
  fromStr text   := (Sample.fields (.ofList (afterLine text.toList))).map .obj
  host url       := if url = Sample.url then some "gw.example" else none
  Doc            := Bool × List (String × Json)
  value r text   := @SettingsHost.value Sample.host r (.ofList (unnoted text.toList))
  parse _ text   :=
    .ok (some (isNoted text.toList, (Sample.fields (.ofList (unnoted text.toList))).getD []))
  set doc key v  := (doc.1, @SettingsHost.set Sample.host doc.2 key v)
  remove doc key := (doc.1, @SettingsHost.remove Sample.host doc.2 key)
  text doc       := .ofList (noted doc.1 (@SettingsHost.text Sample.host doc.2))

def bytes (b : Bool) (text : String) : Bytes := Utf8.encode (noted b text)

def readAs (b : Bool) (fields : List (String × Json)) : SettingsText := ⟨false, .kiro, (b, fields)⟩

variable {t : String × List (String × Json)} {b : Bool}

theorem opened_texts : ∀ t ∈ Sample.texts, ∃ cs, t.1.toList = '\x7b' :: cs := by
  simp only [Sample.texts, List.forall_mem_cons]
  refine ⟨?_, ?_, ?_, by simp⟩
  · rw [String.toList_ofList]
    exact ⟨_, rfl⟩
  · rw [Sample.exceptionsText, String.toList_ofList]
    exact ⟨_, rfl⟩
  · unfold Sample.joinedText
    simp only [String.toList_append]
    repeat rw [String.toList_ofList]
    exact ⟨_, rfl⟩

theorem isNoted_noted (h : t ∈ Sample.texts) : isNoted (noted b t.1) = b := by
  have ⟨cs, hc⟩ := opened_texts t h
  cases b
  case false =>
    rw [noted, hc]
    rfl
  case true => exact List.isPrefixOf_iff_prefix.mpr ⟨t.1.toList, rfl⟩

theorem unnoted_noted (h : t ∈ Sample.texts) : unnoted (noted b t.1) = t.1.toList := by
  rw [unnoted, isNoted_noted h]
  cases b
  case false => rfl
  case true => rfl

theorem stripJsonc_noted (h : t ∈ Sample.texts) :
    afterLine (stripJsonc (noted b t.1)) = t.1.toList := by
  have ⟨cs, hc⟩ := opened_texts t h
  have hp := Sample.plain_texts t h
  simp only [Sample.plain, Bool.and_eq_true, decide_eq_true_eq] at hp
  have hs : stripJsonc t.1.toList = t.1.toList := hp.left.left.left
  cases b
  case false =>
    have hn : noted false t.1 = t.1.toList := rfl
    rw [hn, hs, hc]
    rfl
  case true =>
    have hn : stripJsonc (noted true t.1) = '\n' :: stripJsonc t.1.toList := rfl
    rw [hn, hs]
    rfl

theorem head_noted (h : t ∈ Sample.texts) :
    isEmpty (noted b t.1) = false ∧ stripBom (noted b t.1) = (false, noted b t.1) := by
  have ⟨cs, hc⟩ := opened_texts t h
  rw [noted, hc]
  cases b
  case false => exact ⟨rfl, rfl⟩
  case true => exact ⟨rfl, rfl⟩

theorem decoded_bytes : decoded? (bytes b text) = some (noted b text) := by
  have h : Utf8.fromUtf8 (Utf8.encode (noted b text) ++ []) = (noted b text, []) :=
    Utf8.fromUtf8_eq Utf8.decodeChar?_nil
  rw [List.append_nil] at h
  simp [decoded?, bytes, h]

theorem parse_texts (h : t ∈ Sample.texts) :
    parseSettingsBytes (bytes b t.1) = .ok (.ofFields t.2) := by
  have ⟨he, hs⟩ := head_noted (b := b) h
  simp only [parseSettingsBytes, decoded_bytes, Except.ofOption, bind, Except.bind, hs, he,
    SettingsHost.fromStr, String.toList_ofList, stripJsonc_noted h, String.ofList_toList,
    Sample.fields_texts t h]
  rfl

theorem edits_texts (h : t ∈ Sample.texts) :
    SettingsText.parse (bytes b t.1) .kiro = .ok (readAs b t.2) := by
  have ⟨he, hs⟩ := head_noted (b := b) h
  simp only [SettingsText.parse, if_true, parse_texts h, decoded_bytes, Except.ofOption, bind,
    Except.bind, hs, he, Bool.false_eq_true, if_false, SettingsHost.parse, String.toList_ofList,
    isNoted_noted h, unnoted_noted h, String.ofList_toList, Sample.fields_texts t h]
  rfl

theorem toBytes_readAs (b : Bool) (fields : List (String × Json)) :
    (readAs b fields).toBytes = bytes b (@SettingsHost.text Sample.host fields) := by
  change Utf8.encode ([] ++ (String.ofList (noted b _)).toList) = _
  rw [String.toList_ofList]
  rfl

theorem bytes_texts (h : t ∈ Sample.texts) :
    verifiedBytes (readAs b t.2) (.ofFields t.2) = .ok (bytes b t.1) := by
  have ht : @SettingsHost.text Sample.host t.2 = t.1 := Sample.text_texts t h
  have hb : (readAs b t.2).toBytes = bytes b t.1 := by rw [toBytes_readAs, ht]
  have hr : read (readAs b t.2).reading (bytes b t.1) = .ok (.ofFields t.2) := parse_texts h
  simp only [verifiedBytes, hb, hr, bind, Except.bind, if_true]
  rfl

def file : Bytes := bytes false Sample.exceptionsText

def taken : Bytes := bytes false Sample.joinedText

-- The customer put a comment above all.
def now : Bytes := bytes true Sample.joinedText

def prior : PriorSettingsState := ⟨true, true, .ofFields Sample.exceptions, some file⟩

theorem mem_joined : (Sample.joinedText, Sample.joined) ∈ Sample.texts := by simp [Sample.texts]

theorem read_file : readSettings (some file) = .ok (.ofFields Sample.exceptions) :=
  parse_texts (t := (Sample.exceptionsText, Sample.exceptions)) Sample.mem_exceptions

theorem captured_file : capturePriorState (some file) = .ok prior := by
  have hk : edit ∅ (managedKeys.filterMap fun key =>
      ((Values.ofFields Sample.exceptions).lookup key).map fun v => (key, some v)) =
      .ofFields Sample.exceptions := by
    decide +kernel
  simp only [capturePriorState, read_file, bind, Except.bind, hk]
  rfl

theorem takeover_edits :
    takeoverEdits (.ofFields Sample.exceptions) Sample.url true = .ok Sample.takeover := by
  apply Except.toOption_eq_some.mp
  decide +kernel

theorem planned : planMerge (some file) 1 Sample.url = .ok taken := by
  have hm : edit (.ofFields Sample.exceptions) Sample.takeover = .ofFields Sample.joined := by
    decide +kernel
  have hd : (readAs false Sample.exceptions).edit Sample.takeover = readAs false Sample.joined := by
    refine congrArg (SettingsText.mk false .kiro) ?_
    change @Eq (Bool × List (String × Json)) _ _
    decide +kernel
  have ht : SettingsText.parse file .kiro = .ok (readAs false Sample.exceptions) :=
    edits_texts (t := (Sample.exceptionsText, Sample.exceptions)) Sample.mem_exceptions
  have hv : verifiedBytes (readAs false Sample.joined) (.ofFields Sample.joined) = .ok taken :=
    bytes_texts (t := (Sample.joinedText, Sample.joined)) mem_joined
  rw [planMerge, planTakeoverEdit, Option.getD_some]
  simp only [Except.bind_eq_ok', Except.ensure_eq_ok]
  exact ⟨(), rfl, _, ht, _, read_file, _, takeover_edits, by rw [hd, hm, hv]⟩

theorem merged : mergeByok (some file) 1 Sample.url = .ok (prior, some taken) := by
  have hw : writeIfChanged (some file) taken = some taken := by
    rw [writeIfChanged]
    split
    case isTrue h => rw [← h, Option.getD_some]
    case isFalse => rfl
  exact Except.bind_eq_ok'.mpr
    ⟨_, captured_file, Except.bind_eq_ok'.mpr ⟨_, planned, by rw [hw]; rfl⟩⟩

theorem read_taken : parseSettingsBytes ((some taken).getD []) = .ok (.ofFields Sample.joined) := by
  rw [Option.getD_some]
  exact parse_texts (t := (Sample.joinedText, Sample.joined)) mem_joined

theorem read_now : readForRollback ((some now).getD []) =
    .ok (readAs true Sample.joined, .ofFields Sample.joined) := by
  rw [Option.getD_some]
  exact reads_kiro (edits_texts (t := (Sample.joinedText, Sample.joined)) mem_joined)
    (parse_texts (t := (Sample.joinedText, Sample.joined)) mem_joined)

-- The comment stays with every edit.
theorem noted_edit (es : Edits) (fields : List (String × Json)) :
    ∃ fields', (readAs true fields).edit es = readAs true fields' := by
  induction es generalizing fields
  case nil => exact ⟨fields, rfl⟩
  case cons e es hi =>
    cases he : e.2
    case none =>
      obtain ⟨fields', hf⟩ := hi (@SettingsHost.remove Sample.host fields e.1)
      refine ⟨fields', ?_⟩
      rw [← hf, SettingsText.edit, List.foldl_cons, he]
      rfl
    case some v =>
      obtain ⟨fields', hf⟩ := hi (@SettingsHost.set Sample.host fields e.1 v)
      refine ⟨fields', ?_⟩
      rw [← hf, SettingsText.edit, List.foldl_cons, he]
      rfl

theorem head_now (text : String) : (bytes true text).head? = some 47 := rfl

theorem head_texts (h : t ∈ Sample.texts) : (bytes false t.1).head? = some 123 := by
  have ⟨cs, hc⟩ := opened_texts t h
  have hn : noted false t.1 = '\x7b' :: cs := hc
  rw [bytes, hn]
  rfl

theorem not_editsTo_file : ¬EditsTo (readAs true Sample.joined) file := by
  rintro ⟨es, _, he⟩
  have ⟨fields, hf⟩ := noted_edit es Sample.joined
  have hh : file.head? = some 123 :=
    head_texts (t := (Sample.exceptionsText, Sample.exceptions)) Sample.mem_exceptions
  rw [he, hf, toBytes_readAs, head_now] at hh
  cases hh

theorem now_ne_taken : now ≠ taken := by
  intro h
  have hh : taken.head? = some 123 :=
    head_texts (t := (Sample.joinedText, Sample.joined)) mem_joined
  rw [← h] at hh
  cases hh.symm.trans (head_now _)

theorem edits_seen_iff :
    KeepsEdits (some file) (some taken) (some now) (readAs true Sample.joined)
      (planRevert (some now) prior Sample.url) ↔
    Seen (some file) (some taken) (some now) (readAs true Sample.joined)
      (.ofFields Sample.exceptions) (.ofFields Sample.joined) :=
  rollback_keepsEdits_iff merged read_file read_taken read_now fun _ _ => rfl

-- A comment is lost where the values are what they were.
theorem comment_lost : ¬ ∀ (file taken now : Option Bytes) (names : Nat) (url : String)
    (prior : PriorSettingsState) (text : SettingsText) (m₀ m₁ m : Values)
    (answer : Except SettingsError Rollback),
    mergeByok file names url = .ok (prior, taken) → readSettings file = .ok m₀ →
    parseSettingsBytes (taken.getD []) = .ok m₁ →
    readForRollback (now.getD []) = .ok (text, m) →
    (∀ key ∈ managedKeys, m.lookup key = m₁.lookup key) → planRevert now prior url = answer →
    KeepsEdits file taken now text answer := by
  intro h
  have hv : reverted prior (gatewayHost (trimSlashes Sample.url)) (.ofFields Sample.joined) =
      .ofFields Sample.exceptions := by
    decide +kernel
  have hr : planRevert (some now) prior Sample.url = .ok (.write file) := by
    rw [planRevert_eq read_now, hv, rollbackTo_original rfl rfl read_file]
    rfl
  have hk := h _ _ _ _ _ _ _ _ _ _ _ merged read_file read_taken read_now (fun _ _ => rfl) hr
  rcases hk with hk | ⟨hk, _⟩
  · exact not_editsTo_file hk
  · exact now_ne_taken (Option.some.inj hk)

end Noted

end Patch
