import Superkiro.Patch.Jsonc
import Superkiro.Patch.Patcher
import Superkiro.Patch.Rerender

-- What Kiro put in its place can be put back, whatever fails while it's patched and restored.
namespace Patch

open Patch.Bundle (BundleHost PatchRecipe renderPatchFor repairs updatedPatch)

open Faulty

section

variable {x : Extension} {own raw : Bytes} {st : SavedState} {text : List Char}
  {C : Extension → Prop} {e : PatcherError} {α β : Type} {Q : Except PatcherError β → Extension → Prop}

theorem marked_of_start (h : Bundle.markerStart <+: text) : marked (Utf8.encode text) := by
  obtain ⟨rest, rfl⟩ := h
  rw [marked, markerPrefix, Utf8.encode_append, List.isPrefixOf_iff_prefix]
  exact List.prefix_append _ _

theorem repairs_marker : repairs PatchRecipe.default.marker = some PatchRecipe.default.marker := by
  decide +kernel

theorem repairs_marked {rest : List Char}
    (h : repairs (PatchRecipe.default.marker ++ '\n' :: rest) = some text) :
    ∃ rest, text = PatchRecipe.default.marker ++ '\n' :: rest := by
  obtain ⟨repaired, hr⟩ := Bundle.repairs_total rest
  rw [Bundle.repairs_append repairs_marker hr, Option.some.injEq] at h
  exact ⟨repaired, h.symm⟩

namespace ExtensionPatcher

theorem meets_fetch {file : Extension → Option α} {f : Except ReadError α → Patching β} (hc : C x)
    (hnone : file x = none → (f (.error .notFound)).Meets C Q x)
    (hfailed : (f (.error .failed)).Meets C Q x)
    (hok : ∀ a, file x = some a → (f (.ok a)).Meets C Q x) : (fetch file >>= f).Meets C Q x := by
  apply Prog.meets_bind
  rw [fetch, Prog.meets_get_bind]
  cases h : file x
  case none => exact ⟨hc, hnone h⟩
  case some a => exact ⟨hc, ⟨hc, hok a h⟩, hc, hfailed⟩

-- The same, whatever the read gives.
theorem meets_fetch_any {file : Extension → Option α} {f : Except ReadError α → Patching β} (hc : C x)
    (h : ∀ r : Except ReadError α, (∀ a, r.toOption = some a → file x = some a) →
      (f r).Meets C Q x) : (fetch file >>= f).Meets C Q x := by
  refine meets_fetch hc (fun _ => h _ ?_) (h _ ?_) fun a ha => h (.ok a) ?_
  · intro _ hn
    cases hn
  · intro _ hn
    cases hn
  · intro _ hs
    cases hs
    exact ha

theorem meets_permit {f : Unit → Patching β} (hc : C x) (hok : (f ()).Meets C Q x)
    (herror : Q (.error e) x) : (permit e >>= f).Meets C Q x :=
  ⟨hc, hok, hc, herror⟩

theorem meets_readBundle {f : Bytes → Patching β} (hb : x.bundle = some raw) (hc : C x)
    (hok : (f raw).Meets C Q x) (herror : Q (.error e) x) : (readBundle e >>= f).Meets C Q x := by
  apply Prog.meets_bind
  refine meets_fetch hc ?_ ⟨hc, herror⟩ ?_
  · intro h
    cases hb.symm.trans h
  · intro a h
    cases hb.symm.trans h
    exact ⟨hc, hok⟩

theorem meets_markerPresent {f : Bool → Patching β} (hb : x.bundle = some raw) (hc : C x)
    (h : ∀ b : Bool, (b → marked raw) → (f b).Meets C Q x) : (markerPresent >>= f).Meets C Q x := by
  apply Prog.meets_bind
  refine meets_fetch hc ?_ ?_ ?_
  · intro hn
    cases hb.symm.trans hn
  · exact ⟨hc, h false fun hf => by cases hf⟩
  · intro a ha
    cases hb.symm.trans ha
    exact ⟨hc, h (marked raw) id⟩

theorem meets_status {f : PatchStatus → Patching β} (hb : x.bundle = some raw) (hc : C x)
    (h : ∀ st, (st = .patched → marked raw) → (f st).Meets C Q x) :
    (status >>= f).Meets C Q x := by
  apply Prog.meets_bind
  rw [status, Prog.meets_get_bind, hb]
  refine meets_markerPresent hb hc ?_
  intro b hm
  cases b
  case true => exact ⟨hc, h .patched fun _ => hm rfl⟩
  case false => exact ⟨hc, h _ fun hp => absurd hp (by split <;> decide)⟩

theorem meets_readState {f : SavedState → Patching β} (hc : C x)
    (hok : ∀ st, x.state = some st → (f st).Meets C Q x)
    (herror : Q (.error .extensionChanged) x) : (readState >>= f).Meets C Q x := by
  apply Prog.meets_bind
  exact meets_fetch hc (fun _ => ⟨hc, herror⟩) ⟨hc, herror⟩ fun st h => ⟨hc, hok st h⟩

theorem appendBackup_meets {pre : Bytes} {Q : Except PatcherError Unit → Extension → Prop}
    (hc : ∀ backup, C { x with backup := some backup })
    (hok : Q (.ok ()) { x with backup := some (pre ++ raw) })
    (herror : ∀ backup, Q (.error .io) { x with backup := some backup }) :
    (appendBackup raw).Meets C Q { x with backup := some pre } := by
  induction raw generalizing pre
  case nil =>
    rw [List.append_nil] at hok
    exact ⟨hc pre, ⟨hc pre, hok⟩, hc pre, herror pre⟩
  case cons b raw hi =>
    rw [appendBackup, Prog.meets_act_bind]
    refine ⟨hc pre, hi ?_, hc pre, herror pre⟩
    rwa [List.append_assoc]

theorem meets_removeBackup {f : Unit → Patching β} (hc : C x) (hx : C { x with backup := none })
    (hok : (f ()).Meets C Q { x with backup := none }) (herror : Q (.error .io) x) :
    (removeBackup >>= f).Meets C Q x := by
  apply Prog.meets_bind
  rw [removeBackup, Prog.meets_get_bind]
  split
  case isTrue => exact Prog.meets_act hc hx hok herror
  case isFalse hn =>
    obtain ⟨bundle, backup, state⟩ := x
    cases Option.not_isSome_iff_eq_none.mp hn
    exact ⟨hc, hok⟩

-- Nothing that may be lost is needed while the bundle is Kiro's own.
theorem discardObsoleteMaterial_meets {Q : Except PatcherError Unit → Extension → Prop}
    (hb : x.bundle = some own)
    (hc : ∀ backup state, state = x.state ∨ state = none → C ⟨some own, backup, state⟩)
    (hok : Q (.ok ()) ⟨some own, none, none⟩) (herror : ∀ e y, C y → Q (.error e) y) :
    discardObsoleteMaterial.Meets C Q x := by
  obtain ⟨_, backup, state⟩ := x
  cases hb
  have hstate : ∀ backup, C ⟨some own, backup, state⟩ := fun backup => hc backup _ (.inl rfl)
  rw [discardObsoleteMaterial]
  refine meets_removeBackup (hstate _) (hstate _) ?_ (herror _ _ (hstate _))
  rw [Prog.meets_get_bind]
  split
  case isTrue => exact Prog.meets_act (hstate _) (hc _ _ (.inr rfl)) hok (herror _ _ (hstate _))
  case isFalse hn =>
    cases Option.not_isSome_iff_eq_none.mp hn
    exact ⟨hstate _, hok⟩

-- Where nothing fails, a read gives what's there.
theorem run_fetch {file : Extension → Option α} {a : α} (h : file x = some a) :
    (fetch file).run x = (.ok (.ok a), x) := by
  simp [fetch, Prog.run_bind, h]

end ExtensionPatcher

end

section

variable [BundleHost]

-- A whole patched bundle, as it's made of one of Kiro's.
inductive PatchedFrom (own : Bytes) : List Char → Prop
  | rendered {content gateway owner text} : decoded? own = some content →
    renderPatchFor content gateway .default owner = .ok text → PatchedFrom own text
  | repaired {text text'} : PatchedFrom own text → repairs text = some text' → PatchedFrom own text'

-- The patch of a bundle can be undone with the files beside it.
structure Backed (own patched : Bytes) (x : Extension) : Prop where
  backup : x.backup = some own
  state  : ∃ st, x.state = some st ∧ st.describes own ∧ st.wrote patched

-- The bundle is Kiro's, or a patched one that can be undone. Nothing that counts as patched is Kiro's.
structure Restorable (own : Bytes) (x : Extension) : Prop where
  kiros  : marked own = false
  bundle : x.bundle = some own ∨
    ∃ text, PatchedFrom own text ∧ x.bundle = some (Utf8.encode text) ∧
      Backed own (Utf8.encode text) x
  state  : ∀ st, x.state = some st → ∀ raw, st.wrote raw → marked raw

variable {x : Extension} {own raw : Bytes} {st : SavedState} {content text : List Char}

theorem PatchedFrom.marker (h : PatchedFrom own text) :
    ∃ rest, text = PatchRecipe.default.marker ++ '\n' :: rest := by
  induction h
  case rendered hr =>
    obtain ⟨_, _, hp⟩ := Bundle.patches_of_ok hr
    obtain ⟨repaired, _, hp⟩ := hp.patched
    exact ⟨repaired, hp⟩
  case repaired hr hi =>
    obtain ⟨rest, rfl⟩ := hi
    exact repairs_marked hr

theorem PatchedFrom.marked (h : PatchedFrom own text) : marked (Utf8.encode text) := by
  obtain ⟨rest, rfl⟩ := h.marker
  apply marked_of_start
  have hm : Bundle.markerStart <+: PatchRecipe.default.marker := by decide +kernel
  exact hm.trans (List.prefix_append _ _)

-- What's rendered afresh is rendered from the backup.
theorem backup_of_rendered {installed : Bundle.Installed}
    (h : Bundle.rendered installed = .ok (some text)) : ∃ raw original owner,
      installed.backup = some raw ∧ decoded? raw = some original ∧
        renderPatchFor original installed.gateway installed.recipe owner = .ok text := by
  rw [Bundle.rendered] at h
  split at h
  case h_2 => cases h
  case h_1 st raw _ hraw =>
    split at h
    case isTrue => cases h
    case isFalse =>
      split at h
      case h_1 => cases h
      case h_2 original ho =>
        simp only at h
        split at h
        case h_1 hp =>
          cases h
          exact ⟨raw, original, _, hraw, ho, hp⟩
        case h_2 => cases h
        case h_3 => cases h

theorem updatedPatch_from {installed : Bundle.Installed} (hp : PatchedFrom own content)
    (hrecipe : installed.recipe = .default) (hbackup : ∀ raw, installed.backup = some raw → raw = own)
    (h : updatedPatch installed content = .ok text) : PatchedFrom own text := by
  rw [updatedPatch, Except.bind_eq_ok'] at h
  obtain ⟨fresh, hf, h⟩ := h
  cases fresh
  case none => exact .repaired hp (Except.ofOption_eq_ok.mp h)
  case some fresh =>
    cases h
    rw [Bundle.rerendered, Except.bind_eq_ok'] at hf
    obtain ⟨fresh, hf, hn⟩ := hf
    obtain ⟨rfl, _⟩ := Option.filter_eq_some_iff.mp (Except.pure_eq_ok.mp hn)
    obtain ⟨raw, original, owner, hraw, ho, hr⟩ := backup_of_rendered hf
    rw [hrecipe] at hr
    cases hbackup raw hraw
    exact .rendered ho hr

namespace SavedState

variable {patched : Bytes} {owner : Option (List Char)}

theorem wrote_iff : st.wrote raw ↔ BundleHost.contentHash raw = st.patchedHash ∨
    st.previousPatchedHash = some (BundleHost.contentHash raw) := by
  simp [wrote]

theorem describes_first : (first raw patched owner).describes raw := by
  simp [describes, first]

theorem wrote_first : (first raw patched owner).wrote patched := by
  simp [wrote, first]

theorem wrote_again : (st.again raw patched).wrote patched := by
  simp [wrote, again]

theorem wrote_before : (st.again raw patched).wrote raw := by
  simp [wrote, again]

end SavedState

theorem PatchedFrom.marked_of_first {owner : Option (List Char)} (hp : PatchedFrom own text)
    (hi : Function.Injective BundleHost.contentHash)
    (hw : (SavedState.first own (Utf8.encode text) owner).wrote raw) : Patch.marked raw := by
  obtain he | he := SavedState.wrote_iff.mp hw
  · rw [hi he]
    exact hp.marked
  · cases he

theorem PatchedFrom.marked_of_again (hp : PatchedFrom own text)
    (hi : Function.Injective BundleHost.contentHash) (hc : PatchedFrom own content)
    (hw : (st.again (Utf8.encode content) (Utf8.encode text)).wrote raw) : Patch.marked raw := by
  obtain he | he := SavedState.wrote_iff.mp hw
  · rw [hi he]
    exact hp.marked
  · rw [← hi (Option.some.inj he)]
    exact hc.marked

theorem SavedState.eq_of_describes {raw' : Bytes} (hi : Function.Injective BundleHost.contentHash)
    (h : st.describes raw) (h' : st.describes raw') : raw = raw' := by
  simp only [describes, Bool.and_eq_true, decide_eq_true_eq] at h h'
  exact hi (h.right.trans h'.right.symm)

namespace Restorable

theorem isSome (h : Restorable own x) : ∃ raw, x.bundle = some raw := by
  obtain hb | ⟨text, _, hb, _⟩ := h.bundle
  · exact ⟨_, hb⟩
  · exact ⟨_, hb⟩

theorem own_of_stateless (h : Restorable own x) (hs : x.state = none) : x.bundle = some own := by
  obtain hb | ⟨text, _, _, hbacked⟩ := h.bundle
  · exact hb
  · obtain ⟨st, hst, _⟩ := hbacked.state
    cases hs.symm.trans hst

theorem own_of_unmarked (h : Restorable own x) (hb : x.bundle = some raw)
    (hm : marked raw = false) : raw = own := by
  obtain ho | ⟨text, hp, ho, _⟩ := h.bundle
  · exact Option.some.inj (hb.symm.trans ho)
  · cases hb.symm.trans ho
    exact absurd hp.marked (by simp [hm])

theorem patched_of_marked (h : Restorable own x) (hb : x.bundle = some raw) (hm : marked raw) :
    ∃ text, PatchedFrom own text ∧ raw = Utf8.encode text ∧ Backed own raw x := by
  obtain ho | ⟨text, hp, ho, hbacked⟩ := h.bundle
  · cases hb.symm.trans ho
    rw [h.kiros] at hm
    cases hm
  · cases hb.symm.trans ho
    exact ⟨text, hp, rfl, hbacked⟩

theorem described (hi : Function.Injective BundleHost.contentHash) (h : Restorable own x)
    (hb : x.bundle = some raw) (hst : x.state = some st) (hd : st.describes raw) : raw = own := by
  obtain ho | ⟨text, _, _, hbacked⟩ := h.bundle
  · exact Option.some.inj (hb.symm.trans ho)
  · obtain ⟨_, hst', hd', _⟩ := hbacked.state
    cases hst.symm.trans hst'
    exact SavedState.eq_of_describes hi hd hd'

theorem backup_of_wrote {backup : Bytes} (h : Restorable own x) (hb : x.bundle = some raw)
    (hst : x.state = some st) (hw : st.wrote raw) (hbackup : x.backup = some backup) :
    backup = own := by
  obtain ho | ⟨text, _, _, hbacked⟩ := h.bundle
  · cases hb.symm.trans ho
    exact absurd (h.state st hst _ hw) (by simp [h.kiros])
  · exact Option.some.inj (hbackup.symm.trans hbacked.backup)

-- The bundle may be put back, and the files beside it removed, at any time.
theorem put_back {backup : Option Bytes} {state : Option SavedState} (h : Restorable own x)
    (hs : state = x.state ∨ state = none) : Restorable own ⟨some own, backup, state⟩ := by
  refine ⟨h.kiros, .inl rfl, fun st hst => ?_⟩
  obtain rfl | rfl := hs
  · exact h.state st hst
  · cases hst

end Restorable

namespace ExtensionPatcher

variable {C : Extension → Prop} {β : Type} {Q : Except PatcherError β → Extension → Prop}

theorem meets_backupOf {f : Bytes → Patching β} (hc : C x)
    (hok : ∀ raw, x.backup = some raw → (f raw).Meets C Q x)
    (herror : Q (.error .extensionChanged) x) : (backupOf st >>= f).Meets C Q x := by
  apply Prog.meets_bind
  refine meets_fetch hc (fun _ => ⟨hc, herror⟩) ⟨hc, herror⟩ fun raw h => ?_
  simp only
  split
  case isTrue => exact ⟨hc, hok raw h⟩
  case isFalse => exact ⟨hc, herror⟩

theorem restoreMaterial_reads (hi : Function.Injective BundleHost.contentHash)
    (h : Restorable own x) : restoreMaterial.Reads x fun r =>
      r = .error .extensionChanged ∨ r = .ok none ∧ x = ⟨some own, none, none⟩ ∨
        r = .ok (some own) ∧ x.state.isSome := by
  obtain ⟨raw, hb⟩ := h.isSome
  rw [restoreMaterial, Prog.Reads, Prog.meets_get_bind]
  split
  case isTrue hn =>
    rw [Bool.and_eq_true, Option.isNone_iff_eq_none, Option.isNone_iff_eq_none] at hn
    refine meets_status hb rfl ?_
    intro status _
    split
    case isTrue => exact ⟨rfl, .inl rfl⟩
    case isFalse =>
      have ho := h.own_of_stateless hn.left
      exact ⟨rfl, .inr (.inl ⟨rfl, by rw [← ho, ← hn.left, ← hn.right]⟩)⟩
  case isFalse =>
    refine meets_readState rfl ?_ (.inl rfl)
    intro st hst
    have hs : x.state.isSome := by simp [hst]
    refine meets_readBundle hb rfl ?_ (.inl rfl)
    split
    case isTrue hd =>
      cases h.described hi hb hst hd
      exact ⟨rfl, .inr (.inr ⟨rfl, hs⟩)⟩
    case isFalse =>
      refine meets_backupOf rfl ?_ (.inl rfl)
      intro backup hbackup
      split
      case isTrue hw =>
        cases h.backup_of_wrote hb hst hw hbackup
        exact ⟨rfl, .inr (.inr ⟨rfl, hs⟩)⟩
      case isFalse => exact ⟨rfl, .inl rfl⟩

theorem verifyPatchedContent_reads (hi : Function.Injective BundleHost.contentHash)
    (h : Restorable own x) : verifyPatchedContent.Reads x fun _ => True := by
  obtain ⟨raw, hb⟩ := h.isSome
  rw [verifyPatchedContent]
  refine meets_readState (C := (· = x)) rfl ?_ trivial
  intro st _
  refine meets_readBundle hb rfl ?_ trivial
  split
  case isTrue =>
    refine (restoreMaterial_reads hi h).bind rfl ?_ fun _ _ => trivial
    exact fun _ _ => ⟨rfl, trivial⟩
  case isFalse => exact ⟨rfl, trivial⟩

theorem check_reads {patched : Bytes} {prepared : Option PreparedPatch} :
    (check raw patched prepared).Reads x fun _ => True := by
  rw [check]
  split
  case isTrue => exact ⟨rfl, trivial⟩
  case isFalse => exact meets_permit (C := (· = x)) (f := pure) rfl ⟨rfl, trivial⟩ trivial

theorem updated_reads {gateway : List Char} {owner : Option (List Char)}
    (hp : PatchedFrom own content) (hb : x.backup = some own) :
    (updated content gateway .default owner).Reads x fun r =>
      ∀ text, r = .ok text → PatchedFrom own text := by
  rw [updated]
  refine meets_fetch_any (C := (· = x)) rfl fun st _ => ?_
  refine meets_fetch_any (C := (· = x)) rfl fun backup hbackup => ⟨rfl, ?_⟩
  intro text h
  rw [Except.mapError_eq_ok] at h
  exact updatedPatch_from hp rfl (fun raw hr => Option.some.inj ((hbackup raw hr).symm.trans hb)) h

theorem install_meets {gateway : List Char} {owner : Option (List Char)}
    {prepared : Option PreparedPatch} (hi : Function.Injective BundleHost.contentHash)
    (h : Restorable own x) (hb : x.bundle = some own) (hcontent : decoded? own = some content) :
    (install own content gateway .default owner prepared).Meets (Restorable own)
      (fun _ => Restorable own) x := by
  rw [install]
  refine Prog.meets_lift_bind h ?_ fun _ _ => h
  intro patched hpatched
  have hp : PatchedFrom own patched := .rendered hcontent (Except.mapError_eq_ok.mp hpatched)
  refine check_reads.bind h ?_ fun _ _ => h
  intro _ _
  rw [writeState, Prog.meets_act_bind]
  -- Kiro's own bundle stays until there's a backup of it.
  have hx : ∀ backup, Restorable own
      { x with backup := backup, state := some (.first own (Utf8.encode patched) owner) } := by
    intro backup
    refine ⟨h.kiros, .inl hb, ?_⟩
    rintro _ hst raw hw
    cases hst
    exact hp.marked_of_first hi hw
  refine ⟨h, ?_, h, h⟩
  rw [Prog.meets_act_bind]
  refine ⟨hx _, ?_, hx _, hx _⟩
  apply Prog.meets_bind
  refine appendBackup_meets (fun _ => hx _) ?_ fun _ => hx _
  show (atomicWrite (Utf8.encode patched)).Meets _ _ _
  have hpatched : Restorable own
      { x with
        bundle := some (Utf8.encode patched)
        backup := some own
        state  := some (.first own (Utf8.encode patched) owner) } :=
    ⟨h.kiros, .inr ⟨patched, hp, rfl, rfl, _, rfl, SavedState.describes_first,
      SavedState.wrote_first⟩, (hx none).state⟩
  exact Prog.meets_act (hx _) hpatched hpatched (hx _)

theorem update_meets {gateway : List Char} {owner : Option (List Char)}
    {prepared : Option PreparedPatch} (hi : Function.Injective BundleHost.contentHash)
    (h : Restorable own x) (hp : PatchedFrom own content)
    (hx : x.bundle = some (Utf8.encode content)) (hb : Backed own (Utf8.encode content) x) :
    (update (Utf8.encode content) content gateway .default owner prepared).Meets (Restorable own)
      (fun _ => Restorable own) x := by
  rw [update]
  refine (verifyPatchedContent_reads hi h).bind h ?_ fun _ _ => h
  intro _ _
  refine (updated_reads hp hb.backup).bind h ?_ fun _ _ => h
  intro repaired hr
  have hp' := hr repaired rfl
  split
  case isFalse => exact ⟨h, h⟩
  case isTrue =>
    refine check_reads.bind h ?_ fun _ _ => h
    intro _ _
    refine meets_readState h ?_ h
    intro st hst
    obtain ⟨_, hst', hd, _⟩ := hb.state
    cases hst.symm.trans hst'
    rw [writeState, Prog.meets_act_bind]
    -- Both bundles that the state now allows are patched.
    have hx' : Restorable own
        { x with state := some (st.again (Utf8.encode content) (Utf8.encode repaired)) } := by
      refine ⟨h.kiros, .inr ⟨content, hp, hx, hb.backup, _, rfl, hd, SavedState.wrote_before⟩, ?_⟩
      rintro _ hst raw hw
      cases hst
      exact hp'.marked_of_again hi hp hw
    have hrepaired : Restorable own
        { x with
          bundle := some (Utf8.encode repaired)
          state  := some (st.again (Utf8.encode content) (Utf8.encode repaired)) } :=
      ⟨h.kiros, .inr ⟨repaired, hp', rfl, hb.backup, _, rfl, hd, SavedState.wrote_again⟩, hx'.state⟩
    exact ⟨h, Prog.meets_act hx' hrepaired hrepaired hx', h, h⟩

theorem apply_meets {gateway : List Char} {owner : Option (List Char)}
    {prepared : Option PreparedPatch} (hi : Function.Injective BundleHost.contentHash)
    (h : Restorable own x) : (apply gateway owner prepared).Meets (Restorable own)
      (fun _ => Restorable own) x := by
  obtain ⟨raw, hb⟩ := h.isSome
  rw [apply, applyChecked]
  refine meets_permit h ?_ h
  rw [Prog.meets_get_bind, hb]
  refine meets_readBundle hb h ?_ h
  refine Prog.meets_lift_bind h ?_ fun _ _ => h
  intro content hcontent
  rw [Except.ofOption_eq_ok] at hcontent
  refine meets_status hb h ?_
  intro st hm
  split
  case isTrue hst =>
    obtain ⟨text, hp, rfl, hbacked⟩ := h.patched_of_marked hb (hm hst)
    rw [Jsonc.decoded_encode] at hcontent
    cases hcontent
    exact update_meets hi h hp hb hbacked
  case isFalse =>
    rw [Prog.meets_get_bind]
    split
    case isTrue => exact ⟨h, h⟩
    case isFalse hn =>
      obtain ho | ⟨text, _, _, hbacked⟩ := h.bundle
      · cases hb.symm.trans ho
        exact install_meets hi h hb hcontent
      · exact absurd (by simp [hbacked.backup]) hn

-- Kiro's own bundle is put back, before what it's put back from is removed.
theorem restore_meets {Q : Except PatcherError Bool → Extension → Prop}
    (hi : Function.Injective BundleHost.contentHash) (h : Restorable own x) (hc : C x)
    (ho : ∀ backup state, state = x.state ∨ state = none → C ⟨some own, backup, state⟩)
    (hok : ∀ restored, C ⟨some own, none, none⟩ → Q (.ok restored) ⟨some own, none, none⟩)
    (herror : ∀ e y, C y → Q (.error e) y) : restore.Meets C Q x := by
  rw [restore]
  refine meets_permit hc ?_ (herror _ _ hc)
  rw [restoreValidated]
  refine (restoreMaterial_reads hi h).bind hc ?_ ?_
  · rintro _ (hr | ⟨hr, rfl⟩ | ⟨hr, hs⟩)
    · cases hr
    · cases hr
      exact ⟨hc, hok _ hc⟩
    · cases hr
      have hstate : ∀ backup, C ⟨some own, backup, x.state⟩ := fun backup => ho backup _ (.inl rfl)
      have hnone : C ⟨some own, none, none⟩ := ho none _ (.inr rfl)
      simp only [atomicWrite, Prog.meets_act_bind]
      refine ⟨hc, ?_, hc, herror _ _ hc⟩
      refine meets_removeBackup (hstate _) (hstate _) ?_ (herror _ _ (hstate _))
      rw [Prog.meets_get_bind]
      split
      case isTrue => exact ⟨hstate _, herror _ _ (hstate _)⟩
      case isFalse =>
        rw [Prog.meets_act_bind]
        exact ⟨hstate _, ⟨hnone, hok _ hnone⟩, hstate _, herror _ _ (hstate _)⟩
  · rintro e (hr | ⟨hr, _⟩ | ⟨hr, _⟩) <;> cases hr
    exact herror _ _ hc

theorem patchIsProvablyAbsent_reads (h : Restorable own x) : patchIsProvablyAbsent.Reads x fun r =>
    ∃ absent, r = .ok absent ∧ (absent → x.bundle = some own) := by
  rw [patchIsProvablyAbsent]
  refine meets_fetch_any (C := (· = x)) rfl fun r hr => ?_
  cases r
  case error => exact ⟨rfl, false, rfl, fun hf => by cases hf⟩
  case ok raw =>
    have hb : x.bundle = some raw := hr raw rfl
    refine ⟨rfl, _, rfl, fun hm => ?_⟩
    rw [hb, h.own_of_unmarked hb (by simpa using hm)]

theorem restoreMaterialIsLost_reads (h : Restorable own x) :
    restoreMaterialIsLost.Reads x fun r => r = .ok false := by
  obtain ⟨raw, hb⟩ := h.isSome
  rw [restoreMaterialIsLost]
  refine meets_markerPresent hb rfl fun b hm => ?_
  cases b
  case false => exact ⟨rfl, rfl⟩
  case true =>
    -- What's marked is patched, so its files are there.
    obtain ⟨_, _, rfl, hbacked⟩ := h.patched_of_marked hb (hm rfl)
    obtain ⟨st, hst, hd, hw⟩ := hbacked.state
    refine meets_fetch (C := (· = x)) rfl ?_ ⟨rfl, rfl⟩ ?_
    · intro hn
      cases hn.symm.trans hst
    · intro _ hst'
      cases hst.symm.trans hst'
      refine meets_fetch (C := (· = x)) rfl (fun _ => ⟨rfl, rfl⟩) ⟨rfl, rfl⟩ ?_
      intro _ hb'
      cases hb.symm.trans hb'
      simp only [hw]
      refine meets_fetch (C := (· = x)) rfl ?_ ⟨rfl, rfl⟩ ?_
      · intro hn
        cases hn.symm.trans hbacked.backup
      · intro _ hbackup
        cases hbackup.symm.trans hbacked.backup
        exact ⟨rfl, by rw [hd]; rfl⟩

-- Whatever's reverted after a rollback, the patch is gone before. Kiro needn't be reinstalled.
theorem rollback_meets (hi : Function.Injective BundleHost.contentHash) (h : Restorable own x) :
    rollback.Meets (Restorable own) (fun r y => Restorable own y ∧ r ≠ .error .reinstallRequired ∧
      ∀ restored, r = .ok restored → y = ⟨some own, none, none⟩) x := by
  rw [rollback]
  apply Prog.meets_bind
  apply Prog.meets_attempt
  refine restore_meets hi h h (fun _ _ hs => h.put_back hs) ?_ ?_
  · exact fun _ hy => ⟨hy, hy, by simp, fun _ _ => rfl⟩
  intro e y hy
  cases e
  case extensionChanged =>
    refine (patchIsProvablyAbsent_reads hy).mapError.bind hy ?_ ?_
    · rintro absent ⟨_, ⟨_, rfl, habsent⟩, hr⟩
      cases hr
      split
      case isTrue ha =>
        apply Prog.meets_bind
        apply Prog.meets_mapError
        have hnone : Restorable own ⟨some own, none, none⟩ := hy.put_back (.inr rfl)
        refine discardObsoleteMaterial_meets (habsent ha) (fun _ _ hs => hy.put_back hs) ?_ ?_
        · exact ⟨hnone, hnone, by simp, fun _ _ => rfl⟩
        · exact fun _ _ hz => ⟨hz, by simp, fun _ hr => by cases hr⟩
      case isFalse =>
        refine (restoreMaterialIsLost_reads hy).mapError.bind hy ?_ ?_
        · rintro lost ⟨_, rfl, hr⟩
          cases hr
          exact ⟨hy, hy, by simp, fun _ hr => by cases hr⟩
        · rintro e ⟨_, rfl, hr⟩
          cases hr
    · rintro e ⟨_, ⟨_, rfl, _⟩, hr⟩
      cases hr
  all_goals exact ⟨hy, hy, by simp, fun _ hr => by cases hr⟩

theorem restoreMaterial_run (hi : Function.Injective BundleHost.contentHash)
    (hm : marked own = false) (hp : PatchedFrom own text) (hb : x.bundle = some (Utf8.encode text))
    (hbacked : Backed own (Utf8.encode text) x) : restoreMaterial.run x = (.ok (some own), x) := by
  obtain ⟨st, hst, hd, hw⟩ := hbacked.state
  have hn : st.describes (Utf8.encode text) = false := by
    rw [Bool.eq_false_iff]
    intro hd'
    have hown := hp.marked
    rw [SavedState.eq_of_describes hi hd' hd, hm] at hown
    cases hown
  simp [restoreMaterial, readState, readBundle, backupOf, Prog.run_bind, run_fetch hst,
    run_fetch hb, run_fetch hbacked.backup, hst, hn, hd, hw]

theorem restore_run (hi : Function.Injective BundleHost.contentHash) (h : Restorable own x) :
    (∃ restored, (restore.run x).1 = .ok restored) ∨
      restore.run x = (.error .extensionChanged, x) ∧ x.bundle = some own := by
  obtain ⟨_, rfl | ⟨rfl, _⟩ | ⟨rfl, hs⟩, hr⟩ := (restoreMaterial_reads hi h).run
  · refine .inr ⟨by simp [restore, permit, restoreValidated, Prog.run_bind, hr], ?_⟩
    obtain hb | ⟨text, hp, hb, hbacked⟩ := h.bundle
    · exact hb
    · cases (restoreMaterial_run hi h.kiros hp hb hbacked).symm.trans hr
  · exact .inl ⟨false, by simp [restore, permit, restoreValidated, Prog.run_bind, hr]⟩
  · obtain ⟨st, hst⟩ := Option.isSome_iff_exists.mp hs
    obtain ⟨_, backup, _⟩ := x
    cases hst
    refine .inl ⟨true, ?_⟩
    cases backup <;>
      simp [restore, permit, restoreValidated, atomicWrite, removeBackup, Prog.run_bind, hr]

theorem rollback_run (hi : Function.Injective BundleHost.contentHash) (h : Restorable own x) :
    ∃ restored, (rollback.run x).1 = .ok restored := by
  obtain ⟨restored, hr⟩ | ⟨hr, hb⟩ := restore_run hi h
  · exact ⟨restored, by simp [rollback, Prog.run_bind, Prog.run_attempt, hr]⟩
  · have ha : patchIsProvablyAbsent.run x = (.ok true, x) := by
      simp [patchIsProvablyAbsent, Prog.run_bind, run_fetch hb, h.kiros]
    have hd : ∃ y, discardObsoleteMaterial.run x = (.ok (), y) := by
      obtain ⟨_, backup, state⟩ := x
      cases backup <;> cases state <;>
        simp [discardObsoleteMaterial, removeBackup, Prog.run_bind]
    obtain ⟨y, hd⟩ := hd
    refine ⟨false, ?_⟩
    simp [rollback, Prog.run_bind, Prog.run_attempt, Prog.run_mapError, hr, ha, hd, Except.mapError]

theorem prepare_reads {gateway : List Char} {owner : Option (List Char)}
    (hi : Function.Injective BundleHost.contentHash) (h : Restorable own x) :
    (prepare gateway owner).Reads x fun _ => True := by
  obtain ⟨raw, hb⟩ := h.isSome
  rw [prepare, Prog.Reads, Prog.meets_get_bind, hb]
  refine meets_readBundle hb rfl ?_ trivial
  refine Prog.meets_lift_bind rfl ?_ fun _ _ => trivial
  intro content hcontent
  rw [Except.ofOption_eq_ok] at hcontent
  split
  case isTrue hm =>
    obtain ⟨text, hp, rfl, hbacked⟩ := h.patched_of_marked hb hm
    rw [Jsonc.decoded_encode] at hcontent
    cases hcontent
    refine (verifyPatchedContent_reads hi h).bind rfl ?_ fun _ _ => trivial
    intro _ _
    refine (updated_reads hp hbacked.backup).bind rfl ?_ fun _ _ => trivial
    intro repaired _
    split
    case isTrue => exact meets_permit (C := (· = x)) rfl ⟨rfl, trivial⟩ trivial
    case isFalse => exact ⟨rfl, trivial⟩
  case isFalse =>
    rw [Prog.meets_get_bind]
    split
    case isTrue => exact ⟨rfl, trivial⟩
    case isFalse =>
      refine Prog.meets_lift_bind rfl ?_ fun _ _ => trivial
      exact fun _ _ => meets_permit (C := (· = x)) rfl ⟨rfl, trivial⟩ trivial

end ExtensionPatcher

end

end Patch
