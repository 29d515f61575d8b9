import Superkiro.Patch.Settings

namespace Patch

section Edit

variable {m : Values} {es : Edits} {key : String} {v : Option Json}

theorem lookup_edit_single : (edit m [(k, v)]).lookup key = if key = k then v else m.lookup key := by
  by_cases h : key = k
  case pos => subst h; cases v <;> simp [edit]
  case neg => cases v <;> simp [edit, h]

theorem edit_cons : edit m (e :: es) = edit (edit m [e]) es := rfl

theorem edit_append {es' : Edits} : edit m (es ++ es') = edit (edit m es) es' :=
  List.foldl_append

theorem lookup_edit_of_notMem (h : key ∉ es.map (·.1)) : (edit m es).lookup key = m.lookup key := by
  induction es generalizing m
  case nil => rfl
  case cons e es hi =>
    rw [List.map_cons, List.mem_cons, not_or] at h
    rw [edit_cons, hi h.right, lookup_edit_single, if_neg h.left]

theorem lookup_edit_of_mem (h : (key, v) ∈ es) (hn : (es.map (·.1)).Nodup) :
    (edit m es).lookup key = v := by
  induction es generalizing m
  case nil => cases h
  case cons e es hi =>
    rw [List.map_cons, List.nodup_cons] at hn
    rw [edit_cons]
    cases h
    case head => rw [lookup_edit_of_notMem hn.left, lookup_edit_single, if_pos rfl]
    case tail h => exact hi h hn.right

-- What edits lead to is determined by what the values are that they don't touch.
theorem edit_congr {m' : Values} (h : ∀ key ∉ es.map (·.1), m.lookup key = m'.lookup key)
    (hn : (es.map (·.1)).Nodup) : edit m es = edit m' es := by
  apply Finmap.ext_lookup
  intro key
  by_cases hk : key ∈ es.map (·.1)
  case pos =>
    have ⟨⟨_, v⟩, he, h⟩ := List.mem_map.mp hk
    subst h
    rw [lookup_edit_of_mem he hn, lookup_edit_of_mem he hn]
  case neg => rw [lookup_edit_of_notMem hk, lookup_edit_of_notMem hk, h key hk]

end Edit

section Bypass

open SettingsManager

variable {prior : Option Json} {host : String} {hosts : List Json} {m m₀ : Values}

theorem revertedBypass_prior (prior : Option Json) (host : Option String) :
    revertedBypass prior prior host = prior := by
  unfold revertedBypass
  split
  case h_2 => rfl
  case h_1 hosts host =>
    by_cases h : Json.str host ∈ hosts
    case pos => simp [addedByUs, h]
    case neg =>
      have hk : hosts.filter (· ≠ Json.str host) = hosts :=
        List.filter_eq_self.mpr fun e he => decide_eq_true fun hh => h <| hh ▸ he
      simp only [addedByUs, h, not_false_eq_true, decide_true, if_true, hk, Option.isSome_some,
        Bool.or_true]

-- The hosts that stay in the proxy bypass.
def keptHosts (prior : Option Json) (host : String) (hosts : List Json) : List Json :=
  if addedByUs prior host then hosts.filter (· ≠ Json.str host) else hosts

theorem keptHosts_again :
    keptHosts prior host (keptHosts prior host hosts) = keptHosts prior host hosts := by
  unfold keptHosts
  split
  case isTrue => rw [List.filter_filter]; simp
  case isFalse => rfl

theorem revertedBypass_arr : revertedBypass prior (some (.arr hosts)) (some host) =
    if keptHosts prior host hosts ≠ [] ∨ prior.isSome then some (.arr (keptHosts prior host hosts))
    else none := by
  simp [revertedBypass, keptHosts]

theorem revertedBypass_again (prior current : Option Json) (host : Option String) :
    revertedBypass prior (revertedBypass prior current host) host =
      revertedBypass prior current host := by
  by_cases h : ∃ hosts host', current = some (.arr hosts) ∧ host = some host'
  case neg =>
    have hr : revertedBypass prior current host = prior := by
      unfold revertedBypass
      split
      case h_1 hosts host' => exact absurd ⟨hosts, host', rfl, rfl⟩ h
      case h_2 => rfl
    rw [hr, revertedBypass_prior]
  case pos =>
    obtain ⟨hosts, host, rfl, rfl⟩ := h
    rw [revertedBypass_arr]
    split
    case isTrue hk => rw [revertedBypass_arr, keptHosts_again, if_pos hk]
    case isFalse hk =>
      have hp : prior = none := Option.not_isSome_iff_eq_none.mp (not_or.mp hk).right
      rw [hp]
      rfl

theorem mem_joined : Json.str host ∈ (if .str host ∈ hosts then hosts else hosts ++ [.str host]) := by
  split
  case isTrue h => exact h
  case isFalse => simp

-- A host joins the proxy bypass once.
theorem bypass_again (h : bypass m₀ host = .ok list) (hm : m.lookup noProxy = some list) :
    bypass m host = .ok list := by
  have hj {hosts : List Json} (hl : list = .arr hosts) (hh : Json.str host ∈ hosts) :
      bypass m host = .ok list := by
    simp [bypass, hm, hl, hh]
  unfold bypass at h
  split at h
  case h_1 hosts _ =>
    injection h with h
    exact hj h.symm mem_joined
  case h_2 =>
    injection h with h
    exact hj h.symm (by simp)
  case h_3 => cases h

theorem revertedBypass_bypass (h : bypass m₀ host = .ok list) :
    revertedBypass (m₀.lookup noProxy) (some list) (some host) = m₀.lookup noProxy := by
  unfold bypass at h
  split at h
  case h_1 hosts hm =>
    injection h with h
    rw [hm, ← h, revertedBypass_arr, if_pos (.inr rfl)]
    by_cases hh : Json.str host ∈ hosts
    case pos => simp [keptHosts, addedByUs, hh]
    case neg =>
      have hk : hosts.filter (· ≠ Json.str host) = hosts :=
        List.filter_eq_self.mpr fun e he => decide_eq_true fun h => hh <| h ▸ he
      simp only [hh, if_false, keptHosts, addedByUs, not_false_eq_true, decide_true, if_true,
        List.filter_append, hk]
      simp
  case h_2 hm =>
    injection h with h
    rw [hm, ← h, revertedBypass_arr]
    simp [keptHosts, addedByUs]
  case h_3 => cases h

end Bypass

-- What a rollback turns the values of a file into.
def reverted (prior : PriorSettingsState) (host : Option String) (m : Values) : Values :=
  edit m (SettingsManager.revertedValues prior m host)

section Reverted

open SettingsManager

variable {prior : PriorSettingsState} {host : Option String} {m m₀ : Values} {key : String}

theorem keys_revertedValues (hp : prior.proxyBypassManaged) :
    (revertedValues prior m host).map (·.1) = managedKeys := by
  simp [revertedValues, hp, managedKeys, ourPreferences, Function.comp_def]

theorem nodup_managedKeys : managedKeys.Nodup := by decide

theorem noProxy_managed : noProxy ∈ managedKeys := by decide

theorem reverted_other (hp : prior.proxyBypassManaged) (h : key ∉ managedKeys) :
    (reverted prior host m).lookup key = m.lookup key :=
  lookup_edit_of_notMem <| keys_revertedValues hp ▸ h

theorem reverted_managed (hp : prior.proxyBypassManaged)
    (h : (key, v) ∈ revertedValues prior m host) : (reverted prior host m).lookup key = v :=
  lookup_edit_of_mem h <| keys_revertedValues hp ▸ nodup_managedKeys

theorem reverted_redirection (hp : prior.proxyBypassManaged) (h : key ∈ redirectionKeys) :
    (reverted prior host m).lookup key = prior.priorValues.lookup key := by
  apply reverted_managed hp
  simp only [revertedValues, List.mem_append]
  exact .inl <| .inl <| List.mem_map_of_mem h

theorem reverted_preference (hp : prior.proxyBypassManaged) (h : (key, ours) ∈ ourPreferences) :
    (reverted prior host m).lookup key =
      if m.lookup key = some ours then prior.priorValues.lookup key else m.lookup key := by
  apply reverted_managed hp
  simp only [revertedValues, List.mem_append]
  exact .inl <| .inr <| List.mem_map_of_mem (f := fun p : String × Json => _) h

theorem reverted_noProxy (hp : prior.proxyBypassManaged) :
    (reverted prior host m).lookup noProxy =
      revertedBypass (prior.priorValues.lookup noProxy) (m.lookup noProxy) host := by
  apply reverted_managed hp
  simp [revertedValues, hp]

-- Every managed key is a redirection, a preference or the proxy bypass.
theorem managed_cases (h : key ∈ managedKeys) :
    key ∈ redirectionKeys ∨ (∃ ours, (key, ours) ∈ ourPreferences) ∨ key = noProxy := by
  have hk : managedKeys = redirectionKeys ++ (ourPreferences.map (·.1) ++ [noProxy]) := rfl
  simpa [hk] using h

-- A rollback of what a rollback led to changes no value.
theorem reverted_again (hp : prior.proxyBypassManaged) :
    reverted prior host (reverted prior host m) = reverted prior host m := by
  apply Finmap.ext_lookup
  intro key
  by_cases hk : key ∈ managedKeys
  case neg => rw [reverted_other hp hk]
  case pos =>
    obtain h | ⟨ours, h⟩ | h := managed_cases hk
    · rw [reverted_redirection hp h, reverted_redirection hp h]
    · rw [reverted_preference hp h, reverted_preference hp h]
      by_cases hm : m.lookup key = some ours <;> simp [hm]
    · rw [h, reverted_noProxy hp, reverted_noProxy hp, revertedBypass_again]

end Reverted

section TakenOver

open SettingsManager

variable {prior : PriorSettingsState} {host : Option String} {m m₀ : Values} {key : String}

-- What a takeover leaves of the values `m₀` of a file.
structure TakenOver (host : Option String) (m₀ m : Values) : Prop where
  others : ∀ key ∉ managedKeys, m.lookup key = m₀.lookup key
  ours   : ∀ key ours, (key, ours) ∈ ourPreferences → m.lookup key = some ours
  hosts  : match host with
    | some host => ∃ list, bypass m₀ host = .ok list ∧ m.lookup noProxy = some list
    | none      => m.lookup noProxy = m₀.lookup noProxy

-- What a rollback knows of the values `m₀` a file had.
structure Recorded (m₀ : Values) (prior : PriorSettingsState) : Prop where
  managed : prior.proxyBypassManaged
  values  : ∀ key ∈ managedKeys, prior.priorValues.lookup key = m₀.lookup key

theorem reverted_takenOver (hr : Recorded m₀ prior) (ht : TakenOver host m₀ m) :
    reverted prior host m = m₀ := by
  apply Finmap.ext_lookup
  intro key
  by_cases hk : key ∈ managedKeys
  case neg => rw [reverted_other hr.managed hk, ht.others key hk]
  case pos =>
    have hv := hr.values key hk
    obtain h | ⟨ours, h⟩ | h := managed_cases hk
    · rw [reverted_redirection hr.managed h, hv]
    · rw [reverted_preference hr.managed h, if_pos (ht.ours key ours h), hv]
    · rw [h, reverted_noProxy hr.managed, hr.values noProxy noProxy_managed]
      have hh := ht.hosts
      cases host
      case none => rw [show m.lookup noProxy = m₀.lookup noProxy from hh, revertedBypass_prior]
      case some host =>
        have ⟨list, hb, hl⟩ := hh
        rw [hl, revertedBypass_bypass hb]

theorem keys_present (m : Values) (keys : List String) :
    (keys.filterMap fun key => (m.lookup key).map fun v => (key, some v)).map (·.1) =
      keys.filter fun key => (m.lookup key).isSome := by
  induction keys
  case nil => rfl
  case cons key keys hi => cases hl : m.lookup key <;> simp [hl, hi]

theorem preference_apart : ∀ p ∈ ourPreferences, p.1 ∉ redirectionKeys ∧ p.1 ≠ noProxy := by decide

theorem redirection_managed (h : key ∈ redirectionKeys) : key ∈ managedKeys :=
  List.mem_append_left _ h

theorem preference_managed : ∀ p ∈ ourPreferences, p.1 ∈ managedKeys := by decide

-- What a rollback leaves of values `m` that had been `m₀`.
structure RolledBack (host : Option String) (m₀ m m' : Values) : Prop where
  others      : ∀ key ∉ managedKeys, m'.lookup key = m.lookup key
  redirection : ∀ key ∈ redirectionKeys, m'.lookup key = m₀.lookup key
  preferences : ∀ key ours, (key, ours) ∈ ourPreferences → m'.lookup key =
    if m.lookup key = some ours then m₀.lookup key else m.lookup key
  -- An empty list goes where there was none. Without a list there is nothing to reason from.
  bypass      : m'.lookup noProxy =
    match m.lookup noProxy, host with
    | some (.arr hosts), some host =>
      if keptHosts (m₀.lookup noProxy) host hosts = [] ∧ m₀.lookup noProxy = none then none
      else some (.arr (keptHosts (m₀.lookup noProxy) host hosts))
    | _, _                         => m₀.lookup noProxy

theorem reverted_rolledBack (hr : Recorded m₀ prior) :
    RolledBack host m₀ m (reverted prior host m) where
  others key hk := reverted_other hr.managed hk
  redirection key hk := by
    rw [reverted_redirection hr.managed hk, hr.values key (redirection_managed hk)]
  preferences key ours hk := by
    rw [reverted_preference hr.managed hk, hr.values key (preference_managed _ hk)]
  bypass := by
    rw [reverted_noProxy hr.managed, hr.values noProxy noProxy_managed]
    split
    case h_1 hosts host hh =>
      rw [hh, revertedBypass_arr]
      split
      case isTrue hk =>
        have hk : ¬(keptHosts (m₀.lookup noProxy) host hosts = [] ∧ m₀.lookup noProxy = none) := by
          rw [← Option.not_isSome_iff_eq_none]
          tauto
        rw [if_neg hk]
      case isFalse hk =>
        have ⟨hl, hn⟩ := not_or.mp hk
        rw [if_pos ⟨not_not.mp hl, Option.not_isSome_iff_eq_none.mp hn⟩]
    case h_2 hh =>
      unfold revertedBypass
      split
      case h_1 hosts host hl => exact (hh hosts host hl rfl).elim
      case h_2 => rfl

theorem getD_writeIfChanged (file : Option Bytes) (bytes : Bytes) :
    (writeIfChanged file bytes).getD [] = bytes := by
  unfold writeIfChanged
  split
  case isTrue h => exact h
  case isFalse => rfl

-- A rollback of the values that were there changes none.
theorem reverted_recorded (hr : Recorded m₀ prior) : reverted prior host m₀ = m₀ := by
  apply Finmap.ext_lookup
  intro key
  by_cases hk : key ∈ managedKeys
  case neg => rw [reverted_other hr.managed hk]
  case pos =>
    obtain h | ⟨ours, h⟩ | h := managed_cases hk
    · rw [reverted_redirection hr.managed h, hr.values key hk]
    · rw [reverted_preference hr.managed h, hr.values key hk, ite_self]
    · rw [h, reverted_noProxy hr.managed, hr.values noProxy noProxy_managed, revertedBypass_prior]

variable [SettingsHost] {url : String} {first : Bool} {es : Edits}

theorem captured (h : capturePriorState file = .ok prior) :
    ∃ m₀, readSettings file = .ok m₀ ∧ Recorded m₀ prior ∧ prior.hadSettingsFile = file.isSome ∧
      prior.priorRaw = file := by
  have ⟨m₀, hm, h⟩ := Except.bind_eq_ok'.mp h
  simp only [Except.pure_eq_ok] at h
  subst h
  refine ⟨m₀, hm, ⟨rfl, fun key hk => ?_⟩, rfl, rfl⟩
  have hp := keys_present m₀ managedKeys
  cases hl : m₀.lookup key
  case none =>
    rw [lookup_edit_of_notMem]
    · rfl
    · rw [hp]
      simp [hl]
  case some v =>
    apply lookup_edit_of_mem
    case h => exact List.mem_filterMap.mpr ⟨key, hk, by rw [hl]; rfl⟩
    case hn =>
      rw [hp]
      exact nodup_managedKeys.filter _

def given (values : List (String × Json)) : Edits := values.map fun (key, v) => (key, some v)

theorem takeoverEdits_eq_ok (h : takeoverEdits m url first = .ok es) : ∃ hosts : Edits,
    es = given (redirection (trimSlashes url)) ++
      given (ourPreferences.filter fun (key, _) => first || key = "update.mode") ++ hosts ∧
    match gatewayHost (trimSlashes url) with
    | some host => ∃ list, bypass m host = .ok list ∧ hosts = [(noProxy, some list)]
    | none      => hosts = [] := by
  unfold takeoverEdits at h
  cases hh : gatewayHost (trimSlashes url)
  case none =>
    simp only [hh, Except.bind_eq_ok', Except.pure_eq_ok] at h
    have ⟨_, hn, h⟩ := h
    exact ⟨[], by rw [← h, ← hn, List.append_nil]; simp [given], rfl⟩
  case some host =>
    simp only [hh, Except.bind_eq_ok', Except.pure_eq_ok] at h
    have ⟨_, hb, h⟩ := h
    cases hl : bypass m host
    case error => simp [hl, Except.map] at hb
    case ok list =>
      simp only [hl, Except.map, Except.ok.injEq] at hb
      exact ⟨[(noProxy, some list)], by rw [← h, ← hb]; simp [given], list, hl, rfl⟩

-- A takeover sets managed keys, each of them once.
theorem keys_takeoverEdits (h : takeoverEdits m url first = .ok es) :
    List.Sublist (es.map (·.1)) managedKeys := by
  have ⟨hosts, he, hh⟩ := takeoverEdits_eq_ok h
  have hs : List.Sublist (hosts.map (·.1)) [noProxy] := by
    cases hg : gatewayHost (trimSlashes url)
    case none =>
      rw [hg] at hh
      simp [hh]
    case some =>
      rw [hg] at hh
      have ⟨list, _, hl⟩ := hh
      simp [hl]
  have hp : List.Sublist
      ((given (ourPreferences.filter fun (key, _) => first || key = "update.mode")).map (·.1))
      (ourPreferences.map (·.1)) := by
    rw [given, List.map_map]
    exact List.filter_sublist.map _
  rw [he, List.map_append, List.map_append]
  exact ((List.Sublist.refl redirectionKeys).append hp).append hs

theorem mem_keys_takeoverEdits (h : takeoverEdits m url first = .ok es) (hk : key ∈ es.map (·.1)) :
    key ∈ redirectionKeys ∨
      (∃ ours, (key, ours) ∈ ourPreferences) ∧ (first || key = "update.mode") ∨
      key = noProxy ∧ (gatewayHost (trimSlashes url)).isSome := by
  have ⟨hosts, he, hh⟩ := takeoverEdits_eq_ok h
  rw [he, List.map_append, List.map_append, List.mem_append, List.mem_append] at hk
  obtain (hk | hk) | hk := hk
  · exact .inl hk
  · simp only [given, List.map_map, List.mem_map, List.mem_filter] at hk
    have ⟨p, ⟨hp, hf⟩, hk⟩ := hk
    subst hk
    exact .inr <| .inl ⟨⟨p.2, hp⟩, hf⟩
  · cases hg : gatewayHost (trimSlashes url)
    case none =>
      rw [hg] at hh
      simp [hh] at hk
    case some =>
      rw [hg] at hh
      have ⟨list, _, hl⟩ := hh
      simp only [hl, List.map_cons, List.map_nil, List.mem_singleton] at hk
      exact .inr <| .inr ⟨hk, rfl⟩

-- A takeover of a file that is not yet taken over, or again of one that is.
theorem TakenOver.edited (h : takeoverEdits m url first = .ok es)
    (hm : if first then m = m₀ else TakenOver (gatewayHost (trimSlashes url)) m₀ m) :
    TakenOver (gatewayHost (trimSlashes url)) m₀ (edit m es) := by
  have hks := keys_takeoverEdits h
  have hn := hks.nodup nodup_managedKeys
  have ⟨hosts, he, hh⟩ := takeoverEdits_eq_ok h
  constructor
  case others =>
    intro key hk
    rw [lookup_edit_of_notMem fun hm => hk <| hks.subset hm]
    cases first
    case false => exact TakenOver.others hm key hk
    case true => rw [show m = m₀ from hm]
  case ours =>
    intro key ours hk
    by_cases hg : first || key = "update.mode"
    case pos =>
      apply lookup_edit_of_mem _ hn
      rw [he]
      simp only [List.mem_append, given]
      exact .inl <| .inr <| List.mem_map.mpr ⟨(key, ours), List.mem_filter.mpr ⟨hk, hg⟩, rfl⟩
    case neg =>
      have hf : first = false := Bool.eq_false_iff.mpr fun hf => hg <| by simp [hf]
      rw [lookup_edit_of_notMem]
      · rw [hf] at hm
        exact TakenOver.ours hm key ours hk
      · intro hm
        have ⟨hr, hp⟩ := preference_apart _ hk
        obtain h | h | h := mem_keys_takeoverEdits h hm
        · exact hr h
        · exact hg h.right
        · exact hp h.left
  case hosts =>
    cases hg : gatewayHost (trimSlashes url)
    case none =>
      rw [lookup_edit_of_notMem]
      · cases first
        case false => simpa [hg] using TakenOver.hosts hm
        case true => rw [show m = m₀ from hm]
      · intro hm
        obtain h | ⟨⟨_, h⟩, _⟩ | h := mem_keys_takeoverEdits h hm
        · revert h
          decide
        · exact (preference_apart _ h).right rfl
        · simp [hg] at h
    case some host =>
      rw [hg] at hh
      have ⟨list, hb, hl⟩ := hh
      refine ⟨list, ?_, lookup_edit_of_mem (by simp [he, hl]) hn⟩
      cases first
      case false =>
        have ⟨list', hb', hl'⟩ : ∃ list, bypass m₀ host = .ok list ∧ m.lookup noProxy = some list := by
          simpa [hg] using TakenOver.hosts hm
        rwa [bypass_again hb' hl', ← hb'] at hb
      case true => exact (show m = m₀ from hm) ▸ hb

end TakenOver

section File

open SettingsManager

variable [SettingsHost] {prior : PriorSettingsState} {file now : Option Bytes} {raw : Bytes}
  {text : SettingsText} {m m₀ : Values} {url : String}

-- What a settings file's editor and readers are relied on for.
structure Faithful : Prop where
  -- A file can be made from nothing.
  empty   : ∃ text, SettingsText.parse [] .kiro = .ok text
  -- What was edited can be edited again, where it can be read.
  reopens : ∀ raw reading text es m, SettingsText.parse raw reading = .ok text →
    read reading (text.edit es).toBytes = .ok m →
    ∃ text', SettingsText.parse (text.edit es).toBytes reading = .ok text'
  -- The readers agree on what both of them read.
  agree   : ∀ raw m m', parseSettingsBytes raw = .ok m → parseTolerant raw = .ok m' → m = m'

-- The values of a file as a rollback reads them.
def Reads (file : Option Bytes) (m : Values) : Prop :=
  ∃ text, readForRollback (file.getD []) = .ok (text, m)

theorem verifiedBytes_eq_ok (h : verifiedBytes text m = .ok bytes) :
    bytes = text.toBytes ∧ read text.reading bytes = .ok m := by
  have ⟨actual, hr, h⟩ := Except.bind_eq_ok'.mp h
  split at h
  case isTrue he =>
    simp only [Except.pure_eq_ok] at h
    subst h he
    exact ⟨rfl, hr⟩
  case isFalse => cases h

theorem reading_of_parse (h : SettingsText.parse raw r = .ok text) : text.reading = r := by
  simp only [SettingsText.parse, Except.bind_eq_ok'] at h
  have ⟨_, _, cs, _, h⟩ := h
  split at h
  case h_3 =>
    simp only [Except.pure_eq_ok] at h
    rw [← h]
  all_goals cases h

theorem readForRollback_eq_ok (h : readForRollback raw = .ok (text, m)) :
    SettingsText.parse raw text.reading = .ok text ∧ read text.reading raw = .ok m := by
  unfold readForRollback at h
  split at h
  case h_1 t m' ht hm =>
    cases h
    rw [reading_of_parse ht]
    exact ⟨ht, hm⟩
  case h_2 =>
    simp only [Except.bind_eq_ok', Except.pure_eq_ok, Prod.mk.injEq] at h
    have ⟨t, ht, m', hm, he, hv⟩ := h
    subst he hv
    rw [reading_of_parse ht]
    exact ⟨ht, hm⟩

theorem reads_kiro (hp : SettingsText.parse raw .kiro = .ok text)
    (hr : parseSettingsBytes raw = .ok m) : readForRollback raw = .ok (text, m) := by
  simp only [readForRollback, hp, hr]

-- What a file read as by one reader is what a rollback reads.
theorem reads_of_read (hf : Faithful) (hp : SettingsText.parse raw r = .ok text)
    (hr : read r raw = .ok m) : Reads (some raw) m := by
  cases r
  case kiro => exact ⟨text, reads_kiro hp hr⟩
  case tolerant =>
    unfold Reads readForRollback
    rw [Option.getD_some]
    split
    case h_1 t m' ht hm => exact ⟨t, by rw [hf.agree raw m' m hm hr]⟩
    case h_2 =>
      rw [hp, show parseTolerant raw = .ok m from hr]
      exact ⟨text, rfl⟩

theorem parse_empty : parseSettingsBytes [] = .ok ∅ := rfl

theorem reads_empty (hf : Faithful) : Reads none ∅ :=
  have ⟨text, ht⟩ := hf.empty
  ⟨text, reads_kiro ht parse_empty⟩

-- What a rollback writes: the original bytes, or an edit that reads back.
inductive Planned (prior : PriorSettingsState) (text : SettingsText) (m : Values) :
    Except SettingsError Rollback → Prop
  | deleted : prior.hadSettingsFile = false → m = ∅ → Planned prior text m (.ok .delete)
  | original {bytes} : prior.hadSettingsFile → prior.priorRaw = some bytes →
    parseSettingsBytes bytes = .ok m → Planned prior text m (.ok (.write bytes))
  | edited : read text.reading text.toBytes = .ok m →
    Planned prior text m (.ok (.write text.toBytes))
  | refused : read text.reading text.toBytes ≠ .ok m → Planned prior text m (.error e)

theorem verified_planned : Planned prior text m ((verifiedBytes text m).map Rollback.write) := by
  cases hv : verifiedBytes text m
  case ok =>
    have ⟨hb, hr⟩ := verifiedBytes_eq_ok hv
    subst hb
    exact .edited hr
  case error =>
    apply Planned.refused
    intro hr
    simp only [verifiedBytes, hr] at hv
    simp [bind, Except.bind, pure, Except.pure] at hv

theorem rollbackTo_planned : Planned prior text m (rollbackTo prior text m) := by
  unfold rollbackTo
  extract_lets original
  split
  case isTrue hd =>
    simp only [Bool.and_eq_true, Bool.not_eq_true', decide_eq_true_eq] at hd
    exact .deleted hd.left hd.right
  case isFalse =>
    cases ho : original
    case some bytes =>
      have ⟨hr, hc⟩ := Option.filter_eq_some_iff.mp ho
      simp only [Bool.and_eq_true, decide_eq_true_eq, Except.toOption_eq_some] at hc
      exact .original hc.left.left hr hc.right
    case none => exact verified_planned

theorem planRevert_planned (prior : PriorSettingsState) (url : String)
    (h : readForRollback (now.getD []) = .ok (text, m)) :
    let host := gatewayHost (trimSlashes url)
    Planned prior (text.edit (revertedValues prior m host)) (reverted prior host m)
      (planRevert now prior url) := by
  have hp : planRevert now prior url = rollbackTo prior
      (text.edit (revertedValues prior m (gatewayHost (trimSlashes url))))
      (reverted prior (gatewayHost (trimSlashes url)) m) := by
    rw [planRevert, h]
    rfl
  rw [hp]
  exact rollbackTo_planned

theorem revert_reads (hf : Faithful)
    (ho : ∀ bytes, prior.priorRaw = some bytes → ∃ text, SettingsText.parse bytes .kiro = .ok text)
    (ht : readForRollback (now.getD []) = .ok (text, m)) (h : revert now prior url = .ok after) :
    Reads after (reverted prior (gatewayHost (trimSlashes url)) m) := by
  have hr := planRevert_planned prior url ht
  rw [revert] at h
  generalize planRevert now prior url = planned at h hr
  cases hr
  case deleted _ hm =>
    cases h
    rw [hm]
    exact reads_empty hf
  case original bytes _ hp hb =>
    cases h
    have ⟨text, ht⟩ := ho bytes hp
    exact ⟨text, reads_kiro ht hb⟩
  case edited hb =>
    cases h
    have ⟨_, hp⟩ := hf.reopens _ _ text _ _ (readForRollback_eq_ok ht).left hb
    exact reads_of_read hf hp hb
  case refused => cases h

theorem revert_refused (ht : readForRollback (now.getD []) = .ok (text, m))
    (h : revert now prior url = .error e) :
    let host := gatewayHost (trimSlashes url)
    read text.reading (text.edit (revertedValues prior m host)).toBytes ≠
      .ok (reverted prior host m) := by
  have hr := planRevert_planned prior url ht
  rw [revert] at h
  generalize planRevert now prior url = planned at h hr
  cases hr
  case refused hb => exact hb
  all_goals cases h

-- A file as a takeover leaves it whose values were `m₀`.
def Taken (url : String) (m₀ : Values) (file : Option Bytes) : Prop :=
  ∃ text m, SettingsText.parse (file.getD []) .kiro = .ok text ∧
    parseSettingsBytes (file.getD []) = .ok m ∧ TakenOver (gatewayHost (trimSlashes url)) m₀ m

theorem planTakeoverEdit_taken (hf : Faithful)
    (h : planTakeoverEdit file names url first = .ok bytes)
    (hm : if first then parseSettingsBytes (file.getD []) = .ok m₀ else Taken url m₀ file) :
    Taken url m₀ (writeIfChanged file bytes) := by
  simp only [planTakeoverEdit, Except.bind_eq_ok'] at h
  have ⟨_, _, text, ht, m, hr, es, he, hv⟩ := h
  have ⟨hb, hv⟩ := verifiedBytes_eq_ok hv
  have hv : read .kiro bytes = .ok (edit m es) := reading_of_parse ht ▸ hv
  have ⟨text', ht'⟩ := hf.reopens _ _ _ es _ ht (hb ▸ hv)
  rw [← hb] at ht'
  refine ⟨text', edit m es, ?_, ?_, TakenOver.edited he ?_⟩
  · rwa [getD_writeIfChanged]
  · rwa [getD_writeIfChanged]
  · cases first
    case true => exact Except.ok.inj (hr.symm.trans hm)
    case false =>
      have ⟨_, m', _, hr', ho⟩ : Taken url m₀ file := hm
      rw [hr] at hr'
      cases hr'
      exact ho

-- What becomes of a file when the takeover is asserted again. It stays as it is if it can't be edited.
def reasserted (url : String) (file : Option Bytes) (names : Nat) : Option Bytes :=
  match reassertByok file names url with
  | .ok file => file
  | .error _ => file

theorem reasserted_taken (hf : Faithful) (h : Taken url m₀ file) (names : List Nat) :
    Taken url m₀ (names.foldl (reasserted url) file) := by
  induction names generalizing file
  case nil => exact h
  case cons n ns hi =>
    apply hi
    unfold reasserted reassertByok
    cases hp : planReassert file n url
    case ok bytes => exact planTakeoverEdit_taken hf hp h
    case error => exact h

-- A rollback to the values there were gives the original bytes.
theorem revert_exact (hc : capturePriorState file = .ok prior) (hm : readSettings file = .ok m₀)
    (ht : SettingsText.parse (now.getD []) .kiro = .ok text)
    (hp : parseSettingsBytes (now.getD []) = .ok m)
    (hv : reverted prior (gatewayHost (trimSlashes url)) m = m₀) :
    revert now prior url = .ok file := by
  have ⟨_, _, _, hf, hb⟩ := captured hc
  have hk : text.reading = .kiro := reading_of_parse ht
  have hp : planRevert now prior url = rollbackTo prior
      (text.edit (revertedValues prior m (gatewayHost (trimSlashes url)))) m₀ := by
    rw [planRevert, reads_kiro ht hp, ← hv]
    rfl
  rw [revert, hp]
  cases file
  case none =>
    have he : m₀ = ∅ := Except.ok.inj hm.symm
    simp only [rollbackTo, hf, he, Option.isSome_none, Bool.not_false, decide_true, Bool.and_true,
      if_true]
    rfl
  case some bytes _ =>
    have hm : parseSettingsBytes bytes = .ok m₀ := hm
    have ho : (parseSettingsBytes bytes).toOption = some m₀ := Except.toOption_eq_some.mpr hm
    simp [rollbackTo, hf, hb, ho, hk, SettingsText.edit, Option.filter, Except.map, Rollback.file]

-- What holds of a rollback of a file with the values `m₀` that a takeover left as `taken`.
structure Undoable (url : String) (file : Option Bytes) (m₀ : Values) (prior : PriorSettingsState)
    (taken : Option Bytes) : Prop where
  -- Nothing is left of a takeover, however often it was asserted again.
  exact   : ∀ names : List Nat, revert (names.foldl (reasserted url) taken) prior url = .ok file
  -- What was changed since stays.
  changed : ∀ now m after, Reads now m → revert now prior url = .ok after →
    ∃ m', Reads after m' ∧ RolledBack (gatewayHost (trimSlashes url)) m₀ m m'
  -- An edited text that doesn't read back is the only one that isn't written.
  refused : ∀ now text m e, readForRollback (now.getD []) = .ok (text, m) →
    revert now prior url = .error e →
    let host := gatewayHost (trimSlashes url)
    read text.reading (text.edit (revertedValues prior m host)).toBytes ≠
      .ok (edit m (revertedValues prior m host))
  again   : ∀ now m after after', Reads now m → revert now prior url = .ok after →
    revert after prior url = .ok after' → ∃ m', Reads after m' ∧ Reads after' m'
  settled : revert file prior url = .ok file

end File

-- A host that knows a file of one proxy exception, empty and as a takeover leaves it.
namespace Sample

open SettingsManager

def url : String := "https://gw.example"

def exceptions : List (String × Json) := [(noProxy, .arr [.str "corp"])]

def joined : List (String × Json) :=
  (noProxy, .arr [.str "corp", .str "gw.example"]) :: redirection url ++ ourPreferences

def exceptionsText : String := "\x7b\"http.noProxy\":[\"corp\"]\x7d"

def endpointText : String := "\x7b\"endpoint\":\"https://gw.example\",\"region\":\"us-east-1\"\x7d"

def joinedText : String :=
  "\x7b\"http.noProxy\":[\"corp\",\"gw.example\"]," ++
  "\"kiroAuthConfig\":\x7b\"endpoint\":\"https://gw.example\"," ++
  "\"portalUrl\":\"https://gw.example\"\x7d,\"codewhisperer.config\":\x7b" ++
  "\"cpsEndpoints\":[" ++ endpointText ++ "],\"endpoints\":[" ++ endpointText ++
  "],\"krsEndpoints\":[" ++ endpointText ++ "]\x7d," ++
  "\"kiroAgent.cloudConfig.endpoint\":\"https://gw.example\"," ++
  "\"kiroAgent.remoteSessions.endpoint\":\"https://gw.example\"," ++
  "\"kiroAgent.enableTabAutocomplete\":false,\"update.mode\":\"none\"," ++
  "\"telemetry.telemetryLevel\":\"off\"\x7d"

def texts : List (String × List (String × Json)) :=
  [("\x7b\x7d", []), (exceptionsText, exceptions), (joinedText, joined)]

def fields (text : String) : Option (List (String × Json)) :=
  (texts.find? (·.1 = text)).map (·.2)

scoped instance host : SettingsHost where
  fromStr text := (fields text).map .obj
  host url     := if url = Sample.url then some "gw.example" else none
  Doc          := List (String × Json)
  value _ text :=
    if Patch.isEmpty text.toList then .ok none
    else
      match fields text with
      | some fields => .ok (some (.obj fields))
      | none        => .error ⟨1, 1⟩
  parse _ text := .ok (some ((fields text).getD []))
  set doc key v :=
    if doc.any (·.1 = key) then doc.map fun f => if f.1 = key then (key, v) else f
    else doc ++ [(key, v)]
  remove doc key := doc.filter (·.1 ≠ key)
  text doc       := ((texts.find? (·.2 = doc)).map (·.1)).getD ""

def bytes (text : String) : Bytes := Utf8.encode text.toList

def plain (cs : List Char) : Bool :=
  stripJsonc cs = cs && !isEmpty cs && (stripBom cs).2 = cs && !(stripBom cs).1

theorem toList_joinedText : ∃ cs, joinedText.toList = cs ∧ plain cs ∧ 40 < cs.length := by
  unfold joinedText endpointText
  simp only [String.toList_append]
  repeat rw [String.toList_ofList]
  exact ⟨_, rfl, by decide +kernel⟩

theorem joinedText_ne {text : String} (h : text.toList.length ≤ 40) : text ≠ joinedText := by
  have ⟨cs, hj, _, hc⟩ := toList_joinedText
  intro ht
  rw [ht, hj] at h
  omega

theorem plain_texts : ∀ t ∈ texts, plain t.1.toList := by
  simp only [texts, List.forall_mem_cons]
  refine ⟨?_, ?_, ?_, nofun⟩
  · rw [String.toList_ofList]
    decide +kernel
  · rw [exceptionsText, String.toList_ofList]
    decide +kernel
  · have ⟨cs, hj, hp, _⟩ := toList_joinedText
    rw [hj, hp]

theorem fields_texts : ∀ t ∈ texts, fields t.1 = some t.2 := by
  have h₁ : "\x7b\x7d" ≠ exceptionsText := by simp [exceptionsText]
  have h₂ : "\x7b\x7d" ≠ joinedText := joinedText_ne (by decide)
  have h₃ : exceptionsText ≠ joinedText := joinedText_ne (by
    rw [exceptionsText, String.toList_ofList]
    decide)
  simp [texts, fields, h₁, h₂, h₃]

theorem decoded_bytes : decoded? (bytes text) = some text.toList := by
  have h : Utf8.fromUtf8 (Utf8.encode text.toList ++ []) = (text.toList, []) :=
    Utf8.fromUtf8_eq Utf8.decodeChar?_nil
  rw [List.append_nil] at h
  simp [decoded?, bytes, h]

theorem parse_texts (h : t ∈ texts) : parseSettingsBytes (bytes t.1) = .ok (.ofFields t.2) := by
  have hp := plain_texts t h
  simp only [plain, Bool.and_eq_true, decide_eq_true_eq, Bool.not_eq_true'] at hp
  simp only [parseSettingsBytes, decoded_bytes, Except.ofOption, bind, Except.bind, hp.left.right,
    hp.left.left.right, hp.left.left.left, String.ofList_toList, SettingsHost.fromStr,
    fields_texts t h]
  rfl

theorem edits_texts (h : t ∈ texts) :
    SettingsText.parse (bytes t.1) .kiro = .ok ⟨false, .kiro, t.2⟩ := by
  have hp := plain_texts t h
  simp only [plain, Bool.and_eq_true, decide_eq_true_eq, Bool.not_eq_true'] at hp
  have hs : stripBom t.1.toList = (false, t.1.toList) := Prod.ext hp.right hp.left.right
  simp only [SettingsText.parse, if_true, parse_texts h, decoded_bytes, Except.ofOption, bind,
    Except.bind, hs, hp.left.left.right, Bool.false_eq_true, if_false, String.ofList_toList,
    SettingsHost.parse, fields_texts t h]
  rfl

theorem text_texts : ∀ t ∈ texts, SettingsHost.text (show SettingsHost.Doc from t.2) = t.1 := by
  have h₁ : exceptions ≠ [] := nofun
  have h₂ : joined ≠ [] := nofun
  have h₃ : exceptions ≠ joined := by decide +kernel
  simp [texts, SettingsHost.text, h₁.symm, h₂.symm, h₃]

theorem bytes_texts (h : t ∈ texts) :
    verifiedBytes ⟨false, .kiro, t.2⟩ (.ofFields t.2) = .ok (bytes t.1) := by
  have hb : SettingsText.toBytes ⟨false, .kiro, t.2⟩ = bytes t.1 := by
    rw [SettingsText.toBytes, text_texts t h]
    rfl
  simp only [verifiedBytes, hb, read, parse_texts h, bind, Except.bind, if_true]
  rfl

theorem mem_texts (h : fields text = some fs) : (text, fs) ∈ texts := by
  have ⟨t, ht, h⟩ := Option.map_eq_some_iff.mp h
  have he : t.1 = text := by simpa using List.find?_some ht
  exact he ▸ h ▸ List.mem_of_find?_eq_some ht

theorem parse_of_decoded (hd : decoded? raw = some cs)
    (hk : reading = .kiro → ∃ m, parseSettingsBytes raw = .ok m) :
    ∃ text, SettingsText.parse raw reading = .ok text := by
  have ⟨m, hm⟩ : ∃ m, (if reading = .kiro then parseSettingsBytes raw else .ok ∅) = .ok m := by
    split
    case isTrue h => exact hk h
    case isFalse => exact ⟨∅, rfl⟩
  simp only [SettingsText.parse, hm, hd, Except.ofOption, bind, Except.bind]
  exact ⟨_, rfl⟩

theorem agree (hk : parseSettingsBytes raw = .ok m) (ht : parseTolerant raw = .ok m') : m = m' := by
  simp only [parseSettingsBytes, parseTolerant, Except.bind_eq_ok', Except.ofOption_eq_ok] at hk ht
  have ⟨cs, hd, hk⟩ := hk
  have ⟨_, hd', ht⟩ := ht
  cases hd.symm.trans hd'
  generalize (stripBom cs).2 = cs at hk ht
  cases he : isEmpty cs
  case true =>
    simp only [he, if_true, Except.pure_eq_ok, SettingsHost.value, String.toList_ofList] at hk ht
    exact hk.symm.trans ht
  case false =>
    simp only [SettingsHost.value, String.toList_ofList, he] at ht
    cases hf : fields (.ofList cs)
    case none => simp [hf] at ht
    case some fs =>
      have hs : stripJsonc cs = cs := by
        have hp := plain_texts _ (mem_texts hf)
        simp only [plain, String.toList_ofList, Bool.and_eq_true, decide_eq_true_eq] at hp
        exact hp.left.left.left
      simp [hf, Except.pure_eq_ok] at ht
      simp [he, hs, SettingsHost.fromStr, hf, Except.pure_eq_ok] at hk
      exact hk.symm.trans ht

theorem faithful : Faithful where
  empty := ⟨_, rfl⟩
  reopens raw reading text es m _ hr := by
    cases reading
    case kiro =>
      have ⟨_, hd, _⟩ := Except.bind_eq_ok'.mp (show parseSettingsBytes _ = .ok m from hr)
      exact parse_of_decoded (Except.ofOption_eq_ok.mp hd) fun _ => ⟨m, hr⟩
    case tolerant =>
      have ⟨_, hd, _⟩ := Except.bind_eq_ok'.mp (show parseTolerant _ = .ok m from hr)
      exact parse_of_decoded (Except.ofOption_eq_ok.mp hd) nofun
  agree _ _ _ := agree

def file : Bytes := bytes exceptionsText

def prior : PriorSettingsState := ⟨true, true, .ofFields exceptions, some file⟩

theorem mem_exceptions : (exceptionsText, exceptions) ∈ texts := by simp [texts]

theorem captured_file : capturePriorState (some file) = .ok prior := by
  have hk : edit ∅ (managedKeys.filterMap fun key =>
      ((Values.ofFields exceptions).lookup key).map fun v => (key, some v)) =
      .ofFields exceptions := by
    decide +kernel
  have hr : readSettings (some file) = .ok (.ofFields exceptions) :=
    parse_texts (t := (exceptionsText, exceptions)) mem_exceptions
  simp only [capturePriorState, hr, bind, Except.bind, hk]
  rfl

def takeover : Edits :=
  given (redirection url ++ ourPreferences ++ [(noProxy, .arr [.str "corp", .str "gw.example"])])

theorem takeover_edits : takeoverEdits (.ofFields exceptions) url true = .ok takeover := by
  apply Except.toOption_eq_some.mp
  decide +kernel

theorem planned : planMerge (some file) 1 url = .ok (bytes joinedText) := by
  have hm : edit (.ofFields exceptions) takeover = .ofFields joined := by decide +kernel
  have hd : SettingsText.edit ⟨false, .kiro, exceptions⟩ takeover = ⟨false, .kiro, joined⟩ := by
    refine congrArg (SettingsText.mk false .kiro) ?_
    change @Eq (List (String × Json)) _ _
    decide +kernel
  have ht : SettingsText.parse file .kiro = .ok ⟨false, .kiro, exceptions⟩ :=
    edits_texts (t := (exceptionsText, exceptions)) mem_exceptions
  have hr : parseSettingsBytes file = .ok (.ofFields exceptions) :=
    parse_texts (t := (exceptionsText, exceptions)) mem_exceptions
  have hv : verifiedBytes ⟨false, .kiro, joined⟩ (.ofFields joined) = .ok (bytes joinedText) :=
    bytes_texts (t := (joinedText, joined)) (by simp [texts])
  rw [planMerge, planTakeoverEdit, Option.getD_some]
  simp only [Except.bind_eq_ok', Except.ensure_eq_ok]
  exact ⟨(), rfl, _, ht, _, hr, _, takeover_edits, by rw [hd, hm, hv]⟩

theorem merged : ∃ taken, mergeByok (some file) 1 url = .ok (prior, taken) :=
  ⟨_, Except.bind_eq_ok'.mpr ⟨_, captured_file, Except.bind_eq_ok'.mpr ⟨_, planned, rfl⟩⟩⟩

end Sample

end Patch
