import Superkiro.Patch.Endpoints

-- What a bundle's patch and its updates lead to.
namespace Patch.Bundle

open String (utf8Len)

open Search Slices Rewriting

theorem ensure_ne_panicked {p : Bool} {e : PatchError} :
    Except.ensure p (Stop.refused e) ≠ .error Stop.panicked := by
  cases p <;> simp [Except.ensure]

theorem checkMarker_cases (marker : List Char) :
    (∃ e, checkMarker marker = .error (.refused e)) ∨ checkMarker marker = .ok () := by
  cases h : checkMarker marker
  case ok => exact .inr rfl
  case error e =>
    refine .inl ?_
    cases e
    case refused e => exact ⟨e, rfl⟩
    case panicked =>
      simp only [checkMarker, Except.bind_eq_error] at h
      rcases h with h | ⟨_, hm, h⟩
      · exact absurd h ensure_ne_panicked
      · rw [Except.ensure_eq_ok, Bool.and_eq_true] at hm
        have ⟨inner, hi⟩ := List.isSuffixOf_iff_suffix.mp hm.right
        have hs : sliceTo (utf8Len marker - 3) marker = some inner := sliceTo_front hi.symm rfl
        rw [hs, checked_some] at h
        rcases h with h | ⟨_, _, h | ⟨_, _, h⟩⟩
        · cases h
        · exact absurd h ensure_ne_panicked
        · exact absurd h ensure_ne_panicked

section Render

variable [BundleHost] {content gateway needle : List Char} {recipe : PatchRecipe}
  {owner : Option (List Char)} {patched bundle : List Char} {installed : Installed}

variable {url replacement : List Char} {body : List Char}

theorem renderPatchFor_total (hu : validateGatewayUrl gateway = .ok url)
    (hm : checkMarker recipe.marker = .ok ()) (hr : replacementOf recipe url = .ok replacement)
    (hb : redirectEndpoints content recipe.needle ⟨owner.map ownerTest, replacement⟩ = .ok body) :
    ∃ repaired, repairs body = some repaired ∧
      renderPatchFor content gateway recipe owner = .ok (recipe.marker ++ '\n' :: repaired) := by
  have ⟨repaired, hrepaired⟩ := repairs_total body
  refine ⟨repaired, hrepaired, ?_⟩
  simp only [renderPatchFor, hu, hm, bind, Except.bind, Except.mapError, hr, hb, hrepaired]
  rfl

-- What's known of a patch. It's refused, or all of its steps have a result.
theorem renderPatchFor_cases (content gateway : List Char) (recipe : PatchRecipe)
    (owner : Option (List Char)) :
    (∃ e, renderPatchFor content gateway recipe owner = .error (.refused e)) ∨
      ∃ url replacement body repaired, validateGatewayUrl gateway = .ok url ∧
        replacementOf recipe url = .ok replacement ∧
        redirectEndpoints content recipe.needle ⟨owner.map ownerTest, replacement⟩ = .ok body ∧
        repairs body = some repaired ∧
        renderPatchFor content gateway recipe owner = .ok (recipe.marker ++ '\n' :: repaired) := by
  cases hu : validateGatewayUrl gateway
  case error e => exact .inl ⟨e, by simp only [renderPatchFor, hu]; rfl⟩
  case ok url =>
    obtain ⟨e, hm⟩ | hm := checkMarker_cases recipe.marker
    · exact .inl ⟨e, by simp only [renderPatchFor, hu, hm]; rfl⟩
    · cases hr : replacementOf recipe url
      case error e =>
        refine .inl ⟨e, ?_⟩
        simp only [renderPatchFor, hu, hm, bind, Except.bind, Except.mapError, hr]
      case ok replacement =>
        obtain hb | ⟨_, _, _, hb, _⟩ := redirectEndpoints_cases content recipe.needle
          ⟨owner.map ownerTest, replacement⟩
        · refine .inl ⟨.needleNotFound, ?_⟩
          simp only [renderPatchFor, hu, hm, bind, Except.bind, Except.mapError, hr, hb]
          rfl
        · have ⟨repaired, hrepaired, hp⟩ := renderPatchFor_total hu hm hr hb
          exact .inr ⟨url, replacement, _, repaired, rfl, hr, hb, hrepaired, hp⟩

-- How a bundle is patched.
structure Patches (content gateway : List Char) (recipe : PatchRecipe)
    (owner : Option (List Char)) (redirect : Redirect) (body patched : List Char) : Prop where
  owner     : redirect.isOwner = owner.map ownerTest
  gateway   : ∃ url, validateGatewayUrl gateway = .ok url ∧
    replacementOf recipe url = .ok redirect.replacement
  redirects : redirectEndpoints content recipe.needle redirect = .ok body
  patched   : ∃ repaired, repairs body = some repaired ∧
    patched = recipe.marker ++ '\n' :: repaired

theorem patches_of_ok (h : renderPatchFor content gateway recipe owner = .ok patched) :
    ∃ redirect body, Patches content gateway recipe owner redirect body patched := by
  obtain ⟨e, he⟩ | ⟨url, replacement, body, repaired, hu, hr, hb, hrepaired, hp⟩ :=
    renderPatchFor_cases content gateway recipe owner
  · rw [he] at h
    cases h
  · rw [hp] at h
    cases h
    exact ⟨⟨_, replacement⟩, body, rfl, ⟨url, hu, hr⟩, hb, repaired, hrepaired, rfl⟩

-- Whether all endpoints of a bundle, and nothing else, were redirected.
def Redirects (needle : List Char) (redirect : Redirect) (content body : List Char) : Prop :=
  ∃ cuts rest, Redirected needle redirect content body cuts rest

variable {redirect : Redirect}

omit [BundleHost] in
theorem redirects_of_noneOverlooked (h : redirectEndpoints content needle redirect = .ok body)
    (hn : NoneOverlooked needle content) : Redirects needle redirect content body := by
  obtain he | ⟨cuts, _, rest, he, hc, hcuts, hp⟩ :=
    redirectEndpoints_cases content needle redirect
  · rw [he] at h
    cases h
  · rw [he] at h
    cases h
    exact ⟨cuts, rest, hp.redirected hc hcuts hn⟩

omit [BundleHost] in
theorem noneOverlooked_of_redirects (h : redirectEndpoints content needle redirect = .ok body)
    (ho : redirect.isOwner.isSome) (hr : Redirects needle redirect content body) :
    NoneOverlooked needle content := by
  have ⟨_, ho⟩ := Option.isSome_iff_exists.mp ho
  have ⟨_, _, hr⟩ := hr
  obtain he | ⟨cuts, _, rest, he, hc, _, hp⟩ := redirectEndpoints_cases content needle redirect
  · rw [he] at h
    cases h
  · rw [he] at h
    cases h
    exact hp.noneOverlooked hc ho hr

-- A patch is settled but for its marker.
theorem Patches.repairs_iff (h : Patches content gateway recipe owner redirect body patched) :
    repairs patched = some patched ↔ repairs recipe.marker = some recipe.marker := by
  have ⟨repaired, hr, hp⟩ := h.patched
  have ⟨m, hm⟩ := repairs_total recipe.marker
  rw [hp, repairs_append hm (repairs_again hr), hm, Option.some.injEq, Option.some.injEq]
  constructor
  · exact fun h => List.append_cancel_right h
  · exact fun h => by rw [h]

theorem rendered_cases (installed : Installed) : rendered installed = .ok none ∨
    ∃ fresh, rendered installed = .ok (some fresh) ∧
      (repairs fresh = some fresh ↔
        repairs installed.recipe.marker = some installed.recipe.marker) := by
  unfold rendered
  split
  case h_2 => exact .inl rfl
  case h_1 state backup _ _ =>
    split
    case isTrue => exact .inl rfl
    case isFalse =>
      split
      case h_1 => exact .inl rfl
      case h_2 original _ =>
        obtain ⟨e, he⟩ | ⟨_, _, _, _, _, _, _, _, hp⟩ := renderPatchFor_cases original
          installed.gateway installed.recipe (state.owner <|> installed.currentOwner)
        · exact .inl (by simp only [he])
        · have ⟨_, _, h⟩ := patches_of_ok hp
          exact .inr ⟨_, by simp only [hp], h.repairs_iff⟩

theorem updatedPatch_eq {fresh : Option (List Char)} {repaired : List Char}
    (hf : rendered installed = .ok fresh) (hr : repairs bundle = some repaired) :
    updatedPatch installed bundle = .ok ((fresh.filter (· ≠ bundle)).getD repaired) := by
  simp only [updatedPatch, rerendered, hf, bind, Except.bind, pure, Except.pure]
  cases fresh.filter (· ≠ bundle)
  case none =>
    rw [hr]
    rfl
  case some => rfl

-- An update of what an update led to.
theorem updatedPatch_stable (installed : Installed) (bundle : List Char) :
    ∃ updated, updatedPatch installed bundle = .ok updated ∧
      (updatedPatch installed updated = .ok updated ↔ rendered installed = .ok none ∨
        repairs installed.recipe.marker = some installed.recipe.marker) := by
  have ⟨repaired, hr⟩ := repairs_total bundle
  obtain hf | ⟨fresh, hf, hm⟩ := rendered_cases installed
  case inl =>
    refine ⟨repaired, updatedPatch_eq hf hr, iff_of_true ?_ (.inl hf)⟩
    rw [updatedPatch_eq hf (repairs_again hr)]
    rfl
  case inr =>
    have ⟨again, ha⟩ := repairs_total fresh
    have hstable : again = fresh ↔ rendered installed = .ok none ∨
        repairs installed.recipe.marker = some installed.recipe.marker := by
      rw [← hm, ha, hf]
      simp
    by_cases hb : fresh = bundle
    case neg =>
      refine ⟨fresh, ?_, ?_⟩
      · rw [updatedPatch_eq hf hr, Option.filter_some, if_pos (by simpa using hb)]
        rfl
      · rw [updatedPatch_eq hf ha, Option.filter_some, if_neg (by simp), ← hstable]
        simp
    case pos =>
      subst hb
      refine ⟨again, ?_, ?_⟩
      · rw [updatedPatch_eq hf ha, Option.filter_some, if_neg (by simp)]
        rfl
      · rw [← hstable, updatedPatch_eq hf (repairs_again ha), Option.filter_some]
        by_cases he : fresh = again
        case pos => simp [he]
        case neg => simp [he, Ne.symm he]

-- A patch that's given redirects all endpoints if none is overlooked, and only then where there's
-- an owner to tell by. An update is stable if and only if there's nothing to render afresh, or
-- nothing in the marker to repair.
theorem patches_iff (content gateway : List Char) (recipe : PatchRecipe)
    (owner : Option (List Char)) (installed : Installed) (bundle : List Char) :
    renderPatchFor content gateway recipe owner ≠ .error .panicked ∧
    (∀ patched, renderPatchFor content gateway recipe owner = .ok patched →
      ∃ redirect body, Patches content gateway recipe owner redirect body patched ∧
        (NoneOverlooked recipe.needle content →
          Redirects recipe.needle redirect content body) ∧
        (owner.isSome → Redirects recipe.needle redirect content body →
          NoneOverlooked recipe.needle content)) ∧
    ∃ updated, updatedPatch installed bundle = .ok updated ∧
      (updatedPatch installed updated = .ok updated ↔ rendered installed = .ok none ∨
        repairs installed.recipe.marker = some installed.recipe.marker) := by
  refine ⟨fun hp => ?_, fun patched hp => ?_, updatedPatch_stable installed bundle⟩
  · obtain ⟨e, he⟩ | ⟨_, _, _, _, _, _, _, _, he⟩ :=
      renderPatchFor_cases content gateway recipe owner
    · rw [he] at hp
      cases hp
    · rw [he] at hp
      cases hp
  · have ⟨redirect, body, h⟩ := patches_of_ok hp
    refine ⟨redirect, body, h, redirects_of_noneOverlooked h.redirects, fun ho => ?_⟩
    refine noneOverlooked_of_redirects h.redirects ?_
    rw [h.owner, Option.isSome_map]
    exact ho

end Render

-- A recipe whose needle starts again within what it starts with.
namespace Overlap

def gatewayUrl : List Char := "https://gw.test".toList

-- A host that knows one gateway.
scoped instance host : BundleHost where
  parseUrl url    :=
    if url = gatewayUrl then
      some ⟨"", none, none, none, some "gw.test", "https", gatewayUrl ++ ['/']⟩
    else none
  quoted text     := ['"'] ++ text ++ ['"']
  contentHash _   := ""
  windows         := false

def start : List Char := ['$', '\x7b', 'a']

def overlapping : PatchRecipe := { PatchRecipe.default with needle := start ++ hole }

-- The needle once within what's found as its head, and once as a literal.
def script : List Char := start ++ overlapping.needle ++ ['"'] ++ overlapping.needle ++ ['"']

end Overlap

open Overlap

-- An endpoint is overlooked that's written as the needle and is no literal.
theorem overlooked_endpoint : ¬∀ (content gateway : List Char) (recipe : PatchRecipe)
    (owner : Option (List Char)) (patched : List Char),
    renderPatchFor content gateway recipe owner = .ok patched →
    ∀ x y, content = x ++ recipe.needle ++ y → Quoted x y := by
  intro h
  have ⟨url, hu⟩ := Except.exists_of_isOk
    (show (validateGatewayUrl gatewayUrl).isOk by decide +kernel)
  have ⟨_, hm⟩ := Except.exists_of_isOk
    (show (checkMarker overlapping.marker).isOk by decide +kernel)
  have hr : replacementOf overlapping url =
      .ok ("(process.env.KIRO_GATEWAY_URL||".toList ++ BundleHost.quoted url ++ [')']) :=
    if_pos rfl
  have hurl : url = gatewayUrl := by
    have he : validateGatewayUrl gatewayUrl = .ok gatewayUrl := rfl
    exact Except.ok.inj (hu.symm.trans he)
  subst hurl
  have ⟨_, hb⟩ : ∃ body, redirectEndpoints script overlapping.needle ⟨none,
      "(process.env.KIRO_GATEWAY_URL||".toList ++ BundleHost.quoted gatewayUrl ++ [')']⟩ =
        .ok body :=
    Except.exists_of_isOk (by decide +kernel)
  have ⟨_, _, hp⟩ : ∃ repaired, repairs _ = some repaired ∧
      renderPatchFor script gatewayUrl overlapping none = .ok _ :=
    renderPatchFor_total hu hm hr hb
  have ⟨quote, x, y, hquote, hx, hy⟩ := h _ _ _ _ _ hp start
    (['"'] ++ overlapping.needle ++ ['"']) (by simp [script])
  -- What's in front of the needle ends in a letter.
  have hl : start.getLast? = some quote := by rw [hx, List.getLast?_concat]
  cases hl
  exact absurd hquote (by decide)

end Patch.Bundle
