import Superkiro.Patch.Bundle

-- What the repairs of a bundle leave has nothing more to be repaired.
namespace Patch.Bundle

open String (utf8Len)

open Search Slices Rewriting

section Tunnel

theorem isNameByte_lt (b : UInt8) (h : isNameByte b) : b < 128 := by
  simp only [isNameByte, Bytes.isAlphanumeric, Bytes.isDigit, Bool.or_eq_true, Bool.and_eq_true,
    decide_eq_true_eq, UInt8.le_iff_toNat_le, ← UInt8.toNat_inj] at h
  rw [UInt8.lt_iff_toNat_lt]
  simp at h ⊢
  omega

def isNameChar (c : Char) : Bool := oneOf isNameByte c

-- A text without the identifier at its end.
def unnamed (text : List Char) : Option (List Char) :=
  if text.reverse.takeWhile isNameChar = [] then none
  else some (text.reverse.dropWhile isNameChar).reverse

variable {c : Char} {x y z text : List Char}

theorem sliceTo_front {n : Nat} (h : text = x ++ y) (hn : utf8Len y = n) :
    sliceTo (utf8Len text - n) text = some x := by
  subst h hn
  rw [String.utf8Len_append, Nat.add_sub_cancel]
  exact sliceTo_append

theorem identifier_eq (text : List Char) : identifier text = some (unnamed text) := by
  have hl : ((Utf8.encode text).reverse.takeWhile isNameByte).length =
      (text.reverse.takeWhile isNameChar).length := length_takeWhile_reverse isNameByte_lt
  rw [identifier, unnamed, hl]
  by_cases hn : text.reverse.takeWhile isNameChar = []
  case pos => rw [if_pos hn, hn]; rfl
  case neg =>
    have ht : text = (text.reverse.dropWhile isNameChar).reverse ++
        (text.reverse.takeWhile isNameChar).reverse := by
      rw [← List.reverse_append, List.takeWhile_append_dropWhile, List.reverse_reverse]
    have hw : utf8Len (text.reverse.takeWhile isNameChar).reverse =
        (text.reverse.takeWhile isNameChar).length := by
      rw [← List.length_reverse]
      exact utf8Len_oneOf fun c hc => List.mem_takeWhile_imp (List.mem_reverse.mp hc)
    rw [if_pos (List.length_pos_of_ne_nil hn), if_neg hn, sliceTo_front ht hw]
    rfl

theorem identifierOf_eq (text : Option (List Char)) :
    identifierOf text = some (text.bind unnamed) := by
  cases text
  case none => rfl
  case some text => exact identifier_eq text

-- Whether a tunnel's options are what a text ends in.
def tunnel (before : List Char) : Bool :=
  let text := (stripEnd ')' before).bind unnamed
  let text := (text.bind (stripEnd '(')).bind unnamed
  let text := (text.bind (stripEnd '(')).bind unnamed
  text.any (endsWith connect)

theorem tunnelOptionsBefore_eq (before : List Char) :
    tunnelOptionsBefore before = some (tunnel before) := by
  simp only [tunnelOptionsBefore, identifierOf_eq, Option.bind_eq_bind, Option.bind_some]
  rfl

-- Looks at nothing from `c` on backwards.
def Local (c : Char) (f : List Char → Option (List Char)) : Prop :=
  ∀ z y, f (z ++ c :: y) = (f y).map (z ++ c :: ·)

theorem Local.bind {f g : List Char → Option (List Char)} (hf : Local c f) (hg : Local c g) :
    Local c fun text => (f text).bind g := by
  intro z y
  change (f (z ++ c :: y)).bind g = ((f y).bind g).map _
  rw [hf]
  cases f y
  case none => rfl
  case some text => exact hg z text

theorem stripEnd_local {d : Char} (h : c ≠ d) : Local c (stripEnd d) := by
  intro z y
  cases y using List.reverseRecOn
  case nil => simp [stripEnd, h]
  case append_singleton y e _ =>
    have he : z ++ c :: (y ++ [e]) = (z ++ c :: y) ++ [e] := by simp
    simp only [stripEnd, he, List.getLast?_concat, List.dropLast_concat]
    split <;> rfl

theorem unnamed_local (h : ¬isNameChar c) : Local c unnamed := by
  intro z y
  have hr : (z ++ c :: y).reverse = y.reverse ++ c :: z.reverse := by simp
  have htake : (y.reverse ++ c :: z.reverse).takeWhile isNameChar =
      y.reverse.takeWhile isNameChar := by
    rw [List.takeWhile_append]
    split
    case isTrue hl =>
      rw [List.takeWhile_cons_of_neg h, List.append_nil]
      exact ((List.takeWhile_sublist _).eq_of_length hl).symm
    case isFalse => rfl
  have hdrop : (y.reverse ++ c :: z.reverse).dropWhile isNameChar =
      y.reverse.dropWhile isNameChar ++ c :: z.reverse := by
    rw [List.dropWhile_append]
    split
    case isTrue he =>
      rw [List.isEmpty_iff.mp he, List.dropWhile_cons_of_neg h, List.nil_append]
    case isFalse => rfl
  rw [unnamed, unnamed, hr, htake, hdrop]
  split
  case isTrue => rfl
  case isFalse => simp

theorem endsWith_local {part : List Char} (h : c ∉ part) :
    endsWith part (z ++ c :: y) = endsWith part y := by
  rw [endsWith, endsWith, Bool.eq_iff_iff, List.isSuffixOf_iff_suffix, List.isSuffixOf_iff_suffix]
  constructor
  · intro hp
    rcases List.suffix_or_suffix_of_suffix hp (List.suffix_append z (c :: y)) with hp | hp
    · rcases List.suffix_cons_iff.mp hp with hp | hp
      · exact absurd (hp ▸ List.mem_cons_self) h
      · exact hp
    · exact absurd (hp.subset List.mem_cons_self) h
  · intro hp
    exact hp.trans ((List.suffix_cons c y).trans (List.suffix_append z (c :: y)))

-- Nothing in front of a character that's in no tunnel's options is looked at.
theorem tunnel_local (h₁ : c ≠ ')') (h₂ : c ≠ '(') (hn : ¬isNameChar c) (hc : c ∉ connect)
    (z y : List Char) : tunnel (z ++ c :: y) = tunnel y := by
  have hl := (((((stripEnd_local h₁).bind (unnamed_local hn)).bind (stripEnd_local h₂)).bind
    (unnamed_local hn)).bind (stripEnd_local h₂)).bind (unnamed_local hn) z y
  dsimp only at hl
  simp only [tunnel, hl, Option.any_map, endsWith_local hc]

theorem tunnel_end (h : tunnel z) : z.getLast? = some ')' := by
  by_contra hn
  simp [tunnel, stripEnd, hn] at h

end Tunnel

section Repairs

-- Nothing in a text is to be repaired.
structure Settled (t : List Char) : Prop where
  proxyAgent : ¬proxyAgent <:+: t
  socksAgent : ¬socksAgent <:+: t
  tunnels    : ∀ a b, t = a ++ omitted ++ b → ¬tunnel a
  credit     : ¬creditDisplay <:+: t

def afterParen (before : List Char) : Bool := before.getLast? = some ')'

def always (_ : List Char) : Bool := true

-- What's to be looked at of the texts themselves.
theorem texts_checked :
    (checkApart always proxyAgent repairedProxyAgent ∧
      checkApart always proxyAgent repairedSocksAgent ∧
      checkApart always socksAgent repairedSocksAgent ∧
      checkApart afterParen proxyAgent repairedOptions ∧
      checkApart afterParen socksAgent repairedOptions ∧
      checkApart afterParen omitted repairedOptions) ∧
    (checkApart always omitted repairedCreditDisplay ∧
      checkApart always proxyAgent repairedCreditDisplay ∧
      checkApart always socksAgent repairedCreditDisplay ∧
      checkApart always creditDisplay repairedCreditDisplay) ∧
    (Unbordered proxyAgent ∧ Unbordered socksAgent ∧ Unbordered omitted ∧
      Unbordered creditDisplay) ∧
    ('\n' ∉ proxyAgent ∧ '\n' ∉ socksAgent ∧ '\n' ∉ omitted ∧ '\n' ∉ creditDisplay) ∧
    (omitted.getLast? = some ':' ∧ repairedOptions.getLast? = some ':') ∧
    creditDisplay.getLast? = some '`' ∧ repairedCreditDisplay.getLast? = some '`' := by
  unfold omitted repairedOptions proxyAgent repairedProxyAgent socksAgent repairedSocksAgent
    creditDisplay repairedCreditDisplay
  simp only [String.toList_append]
  repeat rw [String.toList_ofList]
  decide +kernel

theorem agents_apart : (Apart always proxyAgent repairedProxyAgent ∧
    Apart always proxyAgent repairedSocksAgent ∧ Apart always socksAgent repairedSocksAgent) ∧
    Apart afterParen proxyAgent repairedOptions ∧ Apart afterParen socksAgent repairedOptions ∧
    Apart afterParen omitted repairedOptions :=
  have ⟨⟨hpp, hps, hss, hpo, hso, hoo⟩, _⟩ := texts_checked
  ⟨⟨apart_of_check hpp, apart_of_check hps, apart_of_check hss⟩,
    apart_of_check hpo, apart_of_check hso, apart_of_check hoo⟩

theorem credit_apart : Apart always omitted repairedCreditDisplay ∧
    Apart always proxyAgent repairedCreditDisplay ∧
    Apart always socksAgent repairedCreditDisplay ∧
    Apart always creditDisplay repairedCreditDisplay :=
  have ⟨_, ⟨ho, hp, hs, hc⟩, _⟩ := texts_checked
  ⟨apart_of_check ho, apart_of_check hp, apart_of_check hs, apart_of_check hc⟩

-- What's replaced and what it's replaced by end in the same character, which is in no tunnel's
-- options.
theorem tunnel_ends (c : Char) (hc : c ∈ [':', '`', '\n']) (z y : List Char) :
    tunnel (z ++ c :: y) = tunnel y := by
  have hn : ∀ c ∈ [':', '`', '\n'], isNameChar c = false := by
    simp only [List.forall_mem_cons]
    exact ⟨rfl, rfl, rfl, nofun⟩
  have hm : ∀ c ∈ [':', '`', '\n'], c ≠ ')' ∧ c ≠ '(' ∧ c ∉ connect := by
    simp only [List.forall_mem_cons]
    refine ⟨?_, ?_, ?_, nofun⟩ <;> decide +kernel
  have ⟨h₁, h₂, hc'⟩ := hm c hc
  exact tunnel_local h₁ h₂ (by rw [hn c hc]; decide) hc' z y

theorem tunnel_past {c : Char} {w : List Char} (h : w.getLast? = some c)
    (hc : c ∈ [':', '`', '\n']) (z y : List Char) : tunnel (z ++ w ++ y) = tunnel y := by
  have ⟨v, hv⟩ := List.getLast?_eq_some_iff.mp h
  have he : z ++ w ++ y = (z ++ v) ++ c :: y := by simp [hv]
  rw [he, tunnel_ends c hc]

theorem afterParen_of_tunnel (z u : List Char) (h : tunnel z) (hu : u ≠ []) (hs : u <:+ z) :
    afterParen u := by
  have ⟨w, hw⟩ := hs
  have hz := tunnel_end h
  rw [← hw, List.getLast?_append_of_ne_nil _ hu] at hz
  exact decide_eq_true hz

theorem ne_nil : proxyAgent ≠ [] ∧ socksAgent ≠ [] ∧ omitted ≠ [] ∧ creditDisplay ≠ [] := by
  unfold omitted proxyAgent socksAgent creditDisplay
  simp only [String.toList_append]
  repeat rw [String.toList_ofList]
  exact ⟨nofun, nofun, nofun, nofun⟩

theorem new_ne_nil : repairedProxyAgent ≠ [] ∧ repairedSocksAgent ≠ [] ∧ repairedOptions ≠ [] ∧
    repairedCreditDisplay ≠ [] := by
  unfold repairedProxyAgent repairedSocksAgent repairedOptions repairedCreditDisplay
  simp only [String.toList_append]
  repeat rw [String.toList_ofList]
  exact ⟨nofun, nofun, nofun, nofun⟩

variable {s t t' x y : List Char}

-- The text in which the agents are repaired by name.
def renamed (s : List Char) : List Char :=
  replace socksAgent repairedSocksAgent (replace proxyAgent repairedProxyAgent s)

theorem repairs_eq (s : List Char) : repairs s =
    (replaceWhere tunnelOptionsBefore omitted repairedOptions (renamed s)).map
      repairCreditDisplay := rfl

theorem repairs_total (s : List Char) : ∃ t, repairs s = some t := by
  have ⟨_, _, ho, _⟩ := ne_nil
  have ⟨_, _, ⟨_, _, hu, _⟩, _⟩ := texts_checked
  obtain ⟨t, ht, _⟩ : ∃ t, replaceWhere tunnelOptionsBefore omitted repairedOptions (renamed s) =
      some t ∧ Rewritten tunnel omitted repairedOptions [] (renamed s) t :=
    replaceWhere_rewritten hu ho tunnelOptionsBefore_eq _
  exact ⟨_, by rw [repairs_eq, ht]; rfl⟩

theorem agents_settled (s : List Char) :
    ¬proxyAgent <:+: renamed s ∧ ¬socksAgent <:+: renamed s := by
  have ⟨hp, hs, _⟩ := ne_nil
  have ⟨hp', hs', _⟩ := new_ne_nil
  have ⟨hpp, hps, hss⟩ := agents_apart.left
  exact ⟨fun h => replace_settled hpp hp hp' (replace_apart hps hs hs' h),
    replace_settled hss hs hs'⟩

theorem repairs_settled (h : repairs s = some t) : Settled t := by
  have ⟨_, _, ho, hc⟩ := ne_nil
  have ⟨_, _, ho', hc'⟩ := new_ne_nil
  have ⟨_, _, ⟨_, _, hu, _⟩, _, ⟨hlast, hlast'⟩, hlastc, hlastc'⟩ := texts_checked
  have ⟨hpo, hso, hoo⟩ := agents_apart.right
  have ⟨hoc, hpc, hsc, hcc⟩ := credit_apart
  have ⟨hp, hs⟩ := agents_settled s
  rw [repairs_eq] at h
  have ⟨u, hu', he⟩ := Option.map_eq_some_iff.mp h
  subst he
  have hr := rewritten_of_replaceWhere hu ho tunnelOptionsBefore_eq hu'
  have hpast (z z' y : List Char) :
      tunnel (z ++ repairedOptions ++ y) = tunnel (z' ++ omitted ++ y) := by
    rw [tunnel_past hlast' (by decide), tunnel_past hlast (by decide)]
  -- No agent is there after the tunnels' options were repaired.
  have hagent (q : List Char) (ha : Apart afterParen q repairedOptions)
      (hq : ¬q <:+: renamed s) : ¬q <:+: u := by
    intro ⟨a, b, hab⟩
    have ⟨p, part, rest, a', b', he, hpart, _⟩ := hr.site always ha ho'
      afterParen_of_tunnel (fun _ _ _ => rfl) hab.symm rfl
    exact hq ⟨p ++ a', b' ++ rest, by rw [he, hpart]; simp⟩
  constructor
  case proxyAgent => exact fun h => hagent _ hpo hp (replace_apart hpc hc hc' h)
  case socksAgent => exact fun h => hagent _ hso hs (replace_apart hsc hc hc' h)
  case credit => exact replace_settled hcc hc hc'
  case tunnels =>
    intro a b hab ha
    have hcredit : Rewritten always creditDisplay repairedCreditDisplay [] u
        (repairCreditDisplay u) := rewritten_replace hc [] u
    have hpastc (z z' y : List Char) :
        tunnel (z ++ repairedCreditDisplay ++ y) = tunnel (z' ++ creditDisplay ++ y) := by
      rw [tunnel_past hlastc' (by decide), tunnel_past hlastc (by decide)]
    have ⟨p, part, rest, a', b', he, hpart, hok, _⟩ := hcredit.site tunnel hoc hc'
      (fun _ _ _ _ _ => rfl) hpastc hab ha
    refine hr.settled hoo ho' afterParen_of_tunnel hpast (p ++ a') (b' ++ rest) ?_ hok
    rw [he, hpart]
    simp

theorem repairs_of_settled (h : Settled t) : repairs t = some t := by
  have ⟨_, _, ho, _⟩ := ne_nil
  have ⟨_, _, ⟨_, _, hu, _⟩, _⟩ := texts_checked
  have hn : renamed t = t := by
    rw [renamed, replace_none h.proxyAgent, replace_none h.socksAgent]
  have ⟨u, hu'⟩ := repairs_total t
  rw [repairs_eq, hn] at hu' ⊢
  have ⟨v, hv, _⟩ := Option.map_eq_some_iff.mp hu'
  have hr := (rewritten_of_replaceWhere hu ho tunnelOptionsBefore_eq hv).eq_self h.tunnels
  rw [hv, hr]
  exact congrArg some (replace_none h.credit)

theorem repairs_again (h : repairs s = some t) : repairs t = some t :=
  repairs_of_settled (repairs_settled h)

-- What's on both sides of a line's end is repaired on its own.
theorem repairs_append (hx : repairs x = some t) (hy : repairs y = some t') :
    repairs (x ++ '\n' :: y) = some (t ++ '\n' :: t') := by
  have ⟨hp, hs, ho, hc⟩ := ne_nil
  have ⟨_, _, ⟨hup, hus, huo, huc⟩, ⟨hnp, hns, hno, hnc⟩, _⟩ := texts_checked
  have hr : renamed (x ++ '\n' :: y) = renamed x ++ '\n' :: renamed y := by
    rw [renamed, replace_append hup hp hnp, replace_append hus hs hns]
    rfl
  rw [repairs_eq] at hx hy
  have ⟨u, hu, he⟩ := Option.map_eq_some_iff.mp hx
  have ⟨u', hu', he'⟩ := Option.map_eq_some_iff.mp hy
  rw [repairs_eq, hr, replaceWhere_append huo ho hno tunnelOptionsBefore_eq
    (tunnel_ends '\n' (by decide)) hu hu', ← he, ← he']
  exact congrArg some (replace_append huc hc hnc)

end Repairs

end Patch.Bundle
