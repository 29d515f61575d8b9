import Superkiro.Lib.Run
import Superkiro.Patch.Restorable

namespace Patch

open Patch.Bundle (BundleHost PatchRecipe)

open Faulty

-- Where Kiro is installed, with the bundle that it last put there.
structure Installation where
  own   : Bytes
  files : Extension

namespace Installation

def fresh (own : Bytes) : Installation := ⟨own, ⟨some own, none, none⟩⟩

inductive Action
  | prepare (gateway : List Char) (owner : Option (List Char))
  | apply (gateway : List Char) (owner : Option (List Char)) (prepared : Option PreparedPatch)
  | restore
  | rollback
  -- Kiro is updated over what's there, or installed where all was removed.
  | updated (own : Bytes)
  | reinstalled (own : Bytes)

open ExtensionPatcher (prepare apply restore rollback)

section

variable [BundleHost]

-- Whatever fails, and wherever it dies.
inductive Step : Installation → Action → Installation → Prop
  | prepare {s gateway owner r files} : (prepare gateway owner).Ends s.files r files →
    Step s (.prepare gateway owner) ⟨s.own, files⟩
  | apply {s gateway owner prepared r files} : (apply gateway owner prepared).Ends s.files r files →
    Step s (.apply gateway owner prepared) ⟨s.own, files⟩
  | restore {s r files} : restore.Ends s.files r files → Step s .restore ⟨s.own, files⟩
  | rollback {s r files} : rollback.Ends s.files r files → Step s .rollback ⟨s.own, files⟩
  | updated {s own} : marked own = false →
    Step s (.updated own) ⟨own, { s.files with bundle := some own }⟩
  | reinstalled {s own} : marked own = false → Step s (.reinstalled own) (fresh own)

variable {s s' : Installation} {action : Action} {actions : List Action} {own : Bytes}

theorem restorable_fresh (hm : marked own = false) : Restorable own (fresh own).files :=
  ⟨hm, .inl rfl, fun _ hst => by cases hst⟩

theorem Step.restorable (hi : Function.Injective BundleHost.contentHash)
    (h : Restorable s.own s.files) (hs : Step s action s') : Restorable s'.own s'.files := by
  cases hs
  case prepare he =>
    obtain ⟨hx, _⟩ := (ExtensionPatcher.prepare_reads hi h).ends he
    rw [hx]
    exact h
  case apply he => exact ((ExtensionPatcher.apply_meets hi h).ends he).left
  case restore he =>
    have hr := ExtensionPatcher.restore_meets (Q := fun _ _ => True) hi h h
      (fun _ _ hs => h.put_back hs) (fun _ _ => trivial) fun _ _ _ => trivial
    exact (hr.ends he).left
  case rollback he => exact ((ExtensionPatcher.rollback_meets hi h).ends he).left
  case updated hm => exact ⟨hm, .inl rfl, h.state⟩
  case reinstalled hm => exact restorable_fresh hm

theorem restorable (hi : Function.Injective BundleHost.contentHash) (hm : marked own = false)
    (r : Run Step (fresh own) actions s) : Restorable s.own s.files :=
  r.preserves (I := fun s => Restorable s.own s.files) (fun h hs => hs.restorable hi h)
    (restorable_fresh hm)

-- Whatever fails or dies, the bundle is whole, and a rollback leaves just what Kiro put there. No
-- two contents may have one hash.
theorem own_bundle_kept (hi : Function.Injective BundleHost.contentHash) (hm : marked own = false)
    (r : Run Step (fresh own) actions s) :
    (s.files.bundle = some s.own ∨
      ∃ text, PatchedFrom s.own text ∧ s.files.bundle = some (Utf8.encode text)) ∧
    (∃ restored, (rollback.run s.files).1 = .ok restored) ∧
    ∀ r files, rollback.Ends s.files (some r) files → r ≠ .error .reinstallRequired ∧
      ∀ restored, r = .ok restored → files = (fresh s.own).files := by
  have h := restorable hi hm r
  refine ⟨?_, ExtensionPatcher.rollback_run hi h, fun r files he => ?_⟩
  · obtain hb | ⟨text, hp, hb, _⟩ := h.bundle
    · exact .inl hb
    · exact .inr ⟨text, hp, hb⟩
  · obtain ⟨_, hr⟩ := (ExtensionPatcher.rollback_meets hi h).ends he
    exact (hr r rfl).right

end

-- A host that tells all bytes apart.
scoped instance host : BundleHost :=
  { Bundle.Overlap.host with
    contentHash := fun raw => .ofList (raw.map fun b => Char.ofNat b.toNat) }

theorem contentHash_injective : Function.Injective BundleHost.contentHash := by
  intro raw raw' h
  have hv : ∀ n < UInt8.size, (Char.ofNat n).toNat = n := by decide +kernel
  have hc : Function.Injective fun b : UInt8 => Char.ofNat b.toNat := by
    intro b b' hb
    have hn := congrArg Char.toNat hb
    rw [hv _ b.toNat_lt_size, hv _ b'.toNat_lt_size] at hn
    exact UInt8.toNat_inj.mp hn
  exact hc.list_map (String.ofList_injective h)

def bundle : Bytes := Utf8.encode (['"'] ++ PatchRecipe.default.needle ++ ['"'])

def patched : Extension := ((apply Bundle.Overlap.gatewayUrl none none).run (fresh bundle).files).2

-- A bundle that's patched is so still where its rollback couldn't begin.
theorem own_bundle_kept_sample : ∃ s, Run Step (fresh bundle)
    [.apply Bundle.Overlap.gatewayUrl none none, .rollback] s ∧ s.files.bundle ≠ some bundle ∧
    ∃ restored, (rollback.run s.files).1 = .ok restored := by
  have r : Run Step (fresh bundle) [.apply Bundle.Overlap.gatewayUrl none none, .rollback]
      ⟨bundle, (rollback.runWith [.fails] patched).2⟩ :=
    .cons (.apply Prog.ends_run) (.single (.rollback Prog.ends_runWith))
  have hm : marked bundle = false := by decide +kernel
  exact ⟨_, r, by decide +kernel, (own_bundle_kept contentHash_injective hm r).right.left⟩

end Installation

end Patch
