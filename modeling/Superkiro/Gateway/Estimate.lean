import Superkiro.Gateway.Usage
import Superkiro.Lib.Utf8
import Superkiro.Lib.Width
import Superkiro.Translate.Documents

namespace Gateway

open Json Width Translate

-- What a provider charges for a PDF page, read as text and as an image of the page.
def pdfPageTokens : Nat := 2000

-- Upper bound of the providers' per-image formulas after their own resizing.
def imageTokens : Nat := 1600

inductive DocumentKind
  | pdf
  | text
  | unsupported
  deriving DecidableEq

def textFormats : List String :=
  ["txt", "md", "markdown", "csv", "tsv", "html", "htm", "json", "jsonl", "xml", "yaml", "yml",
    "toml", "ini", "log", "sql", "js", "jsx", "ts", "tsx", "py", "rs", "go", "java", "kt", "c",
    "h", "cc", "cpp", "hpp", "cs", "rb", "php", "swift", "sh", "bash", "ps1", "css", "scss", "vue",
    "svelte", "lua", "dart", "scala", "r"]

def documentKind (format : String) : DocumentKind :=
  let format : String := .ofList
    (((Text.trim format).toList.dropWhile (· = '.')).map Text.lowerAscii)
  if format = "pdf" then .pdf
  else if textFormats.contains format then .text
  else .unsupported

-- How the packages for Base64 and for deflated data read their input.
structure Readers where
  decode  : String → Option (List UInt8)
  inflate : List UInt8 → List UInt8

namespace Readers

variable {U : Type} (r : Readers) (A : Arithmetic U)

-- A PDF's pages when they can be counted, else one page per 50 KB. Counting them always ends.
def pages (pdf : List UInt8) : Nat :=
  let counted := Documents.pdfPageCount r.inflate pdf
  (counted.bind id).getD (max ((pdf.length + (50 * 1024 - 1)) / (50 * 1024)) 1)

def pdfTokens (pdf : List UInt8) : U := A.times (A.lit (r.pages pdf)) pdfPageTokens

-- Estimated input tokens of an attachment in quarter-token units: a PDF by its pages, a text format
-- by its text, anything else as its note.
def estimateUnits (format base64 : String) : U :=
  let decoded := (r.decode (Text.trim base64)).getD []
  match documentKind format with
  | .pdf         => A.times (r.pdfTokens A decoded) 4
  | .text        => A.lit (tokenUnits (.fromUtf8Lossy decoded))
  | .unsupported => A.lit 64

def documentUnits (document : Json) : U :=
  r.estimateUnits A (((document.get? "format").bind (·.asStr?)).getD "")
    (((document.get? "source").bind (·.get? "bytes")).bind (·.asStr?) |>.getD "")

-- Images and attachments that a field has a list of, which are counted as what they are sent as.
def mediaUnits (key : String) (value : Json) : Option U :=
  match value.asArr? with
  | none         => none
  | some entries =>
    if key = "images" then some (A.times (A.times (A.lit entries.length) imageTokens) 4)
    else if key = "documents" then some (A.sum (entries.map (r.documentUnits A)))
    else none

def textUnits (text : String) : U :=
  if Text.startsWith text "data:image/" then A.times (A.lit imageTokens) 4
  else
    match Text.stripPrefix text "data:application/pdf;base64," with
    | some pdf => r.estimateUnits A "pdf" pdf
    | none     => A.lit (tokenUnits text)

mutual

def jsonUnits : Json → U
  | .str text   => r.textUnits A text
  | .arr items  => A.sum (itemUnits items)
  | .obj fields => A.sum (fieldUnits fields)
  | .null       => A.lit 1
  | .bool _     => A.lit 1
  | .num _      => A.lit 1
  | .real _     => A.lit 1

def itemUnits : List Json → List U
  | []            => []
  | item :: items => jsonUnits item :: itemUnits items

def fieldUnits : List (String × Json) → List U
  | []                     => []
  | (key, value) :: fields =>
    (r.mediaUnits A key value).getD (A.add (A.lit (tokenUnits key)) (jsonUnits value)) ::
      fieldUnits fields

end

-- Estimates the input tokens of a request from its JSON, with the arithmetic of the release.
def estimateJsonTokens (value : Json) : Nat :=
  tokensFromUnits (r.jsonUnits (.wrapping 64) value)

-- What's counted in a value: the pages of a PDF, or units of something else.
inductive Cost
  | pages (n : Nat)
  | units (n : Nat)

def Cost.size : Cost → Nat
  | pages n => n * pdfPageTokens * 4
  | units n => n

def documentCost (format base64 : String) : Cost :=
  let decoded := (r.decode (Text.trim base64)).getD []
  match documentKind format with
  | .pdf         => .pages (r.pages decoded)
  | .text        => .units (tokenUnits (.fromUtf8Lossy decoded))
  | .unsupported => .units 64

def mediaCosts (key : String) (value : Json) : Option (List Cost) :=
  match value.asArr? with
  | none         => none
  | some entries =>
    if key = "images" then some [.units (entries.length * imageTokens * 4)]
    else if key = "documents" then
      some (entries.map fun document =>
        r.documentCost (((document.get? "format").bind (·.asStr?)).getD "")
          (((document.get? "source").bind (·.get? "bytes")).bind (·.asStr?) |>.getD ""))
    else none

def textCost (text : String) : Cost :=
  if Text.startsWith text "data:image/" then .units (imageTokens * 4)
  else
    match Text.stripPrefix text "data:application/pdf;base64," with
    | some pdf => r.documentCost "pdf" pdf
    | none     => .units (tokenUnits text)

mutual

def costs : Json → List Cost
  | .str text   => [r.textCost text]
  | .arr items  => itemCosts items
  | .obj fields => fieldCosts fields
  | .null       => [.units 1]
  | .bool _     => [.units 1]
  | .num _      => [.units 1]
  | .real _     => [.units 1]

def itemCosts : List Json → List Cost
  | []            => []
  | item :: items => costs item ++ itemCosts items

def fieldCosts : List (String × Json) → List Cost
  | []                     => []
  | (key, value) :: fields =>
    (r.mediaCosts key value).getD (.units (tokenUnits key) :: costs value) ++ fieldCosts fields

end

def Cost.pageCount : Cost → Nat
  | pages n => n
  | units _ => 0

def Cost.unitCount : Cost → Nat
  | pages _ => 0
  | units n => n

-- The pages of all PDFs in a value.
def allPages (value : Json) : Nat := ((r.costs value).map Cost.pageCount).sum

-- The units of everything else in it.
def allUnits (value : Json) : Nat := ((r.costs value).map Cost.unitCount).sum

section Simulation

variable {r : Readers} {V : Type} {A : Arithmetic U} {B : Arithmetic V} {R : U → V → Prop}

theorem pdfTokens_simulates (h : A.Simulates B R) (pdf : List UInt8) :
    R (r.pdfTokens A pdf) (r.pdfTokens B pdf) :=
  h.times (by decide) (h.lit _)

theorem estimateUnits_simulates (h : A.Simulates B R) (format base64 : String) :
    R (r.estimateUnits A format base64) (r.estimateUnits B format base64) := by
  rw [estimateUnits, estimateUnits]
  cases documentKind format
  case pdf => exact h.times (by decide) (pdfTokens_simulates h _)
  case text => exact h.lit _
  case unsupported => exact h.lit _

theorem textUnits_simulates (h : A.Simulates B R) (text : String) :
    R (r.textUnits A text) (r.textUnits B text) := by
  rw [textUnits, textUnits]
  split
  case isTrue => exact h.times (by decide) (h.lit _)
  case isFalse =>
    split
    case h_1 => exact estimateUnits_simulates h _ _
    case h_2 => exact h.lit _

theorem mediaUnits_simulates (h : A.Simulates B R) (key : String) (value : Json) :
    Option.Rel R (r.mediaUnits A key value) (r.mediaUnits B key value) := by
  rw [mediaUnits, mediaUnits]
  split
  case h_1 => exact .none
  case h_2 entries _ =>
    split
    case isTrue => exact .some (h.times (by decide) (h.times (by decide) (h.lit _)))
    case isFalse =>
      split
      case isTrue =>
        refine .some (h.sum ?_)
        rw [List.forall₂_map_left_iff, List.forall₂_map_right_iff, List.forall₂_same]
        exact fun document _ => estimateUnits_simulates h _ _
      case isFalse => exact .none

mutual

-- A relation that the operations keep holds of what's estimated.
theorem jsonUnits_simulates (h : A.Simulates B R) :
    ∀ value, R (r.jsonUnits A value) (r.jsonUnits B value)
  | .str text   => by
    rw [jsonUnits, jsonUnits]
    exact textUnits_simulates h text
  | .arr items  => by
    rw [jsonUnits, jsonUnits]
    exact h.sum (itemUnits_simulates h items)
  | .obj fields => by
    rw [jsonUnits, jsonUnits]
    exact h.sum (fieldUnits_simulates h fields)
  | .null       => by
    rw [jsonUnits, jsonUnits]
    exact h.lit 1
  | .bool _     => by
    rw [jsonUnits, jsonUnits]
    exact h.lit 1
  | .num _      => by
    rw [jsonUnits, jsonUnits]
    exact h.lit 1
  | .real _     => by
    rw [jsonUnits, jsonUnits]
    exact h.lit 1

theorem itemUnits_simulates (h : A.Simulates B R) :
    ∀ items, List.Forall₂ R (r.itemUnits A items) (r.itemUnits B items)
  | []            => .nil
  | item :: items => .cons (jsonUnits_simulates h item) (itemUnits_simulates h items)

theorem fieldUnits_simulates (h : A.Simulates B R) :
    ∀ fields, List.Forall₂ R (r.fieldUnits A fields) (r.fieldUnits B fields)
  | []                     => .nil
  | (key, value) :: fields => by
    rw [fieldUnits, fieldUnits]
    refine .cons ?_ (fieldUnits_simulates h fields)
    have hm := mediaUnits_simulates (r := r) h key value
    generalize r.mediaUnits A key value = u at hm ⊢
    generalize r.mediaUnits B key value = v at hm ⊢
    cases hm
    case none => exact h.add (h.lit _) (jsonUnits_simulates h value)
    case some hu => exact hu

end

end Simulation

section Exact

variable {r : Readers}

def sizeOf (costs : List Cost) : Nat := (costs.map Cost.size).sum

theorem sizeOf_append (xs ys : List Cost) : sizeOf (xs ++ ys) = sizeOf xs + sizeOf ys := by
  rw [sizeOf, List.map_append, List.sum_append]
  rfl

theorem estimateUnits_exact (format base64 : String) :
    r.estimateUnits .exact format base64 = (r.documentCost format base64).size := by
  rw [estimateUnits, documentCost]
  cases documentKind format <;> rfl

theorem textUnits_exact (text : String) :
    r.textUnits .exact text = (r.textCost text).size := by
  rw [textUnits, textCost]
  split
  case isTrue => rfl
  case isFalse =>
    split
    case h_1 => exact estimateUnits_exact _ _
    case h_2 => rfl

theorem mediaUnits_exact (key : String) (value : Json) :
    r.mediaUnits .exact key value = (r.mediaCosts key value).map sizeOf := by
  rw [mediaUnits, mediaCosts]
  split
  case h_1 => rfl
  case h_2 entries _ =>
    split
    case isTrue => rfl
    case isFalse =>
      split
      case isTrue =>
        refine congrArg some ((Arithmetic.sum_exact _).trans ?_)
        rw [sizeOf, List.map_map]
        refine congrArg List.sum (List.map_congr_left fun document _ => ?_)
        rw [documentUnits, estimateUnits_exact, Function.comp_apply]
      case isFalse => rfl

mutual

-- What's meant to be estimated is the size of everything in a value.
theorem jsonUnits_exact : ∀ value, r.jsonUnits .exact value = sizeOf (r.costs value)
  | .str text   => by
    rw [jsonUnits, costs, textUnits_exact]
    rfl
  | .arr items  => by rw [jsonUnits, costs, Arithmetic.sum_exact, itemUnits_exact items]
  | .obj fields => by rw [jsonUnits, costs, Arithmetic.sum_exact, fieldUnits_exact fields]
  | .null       => by rw [jsonUnits, costs]; rfl
  | .bool _     => by rw [jsonUnits, costs]; rfl
  | .num _      => by rw [jsonUnits, costs]; rfl
  | .real _     => by rw [jsonUnits, costs]; rfl

theorem itemUnits_exact : ∀ items, (r.itemUnits .exact items).sum = sizeOf (r.itemCosts items)
  | []            => rfl
  | item :: items => by
    rw [itemUnits, itemCosts, List.sum_cons, jsonUnits_exact item, itemUnits_exact items,
      sizeOf_append]

theorem fieldUnits_exact :
    ∀ fields, (r.fieldUnits .exact fields).sum = sizeOf (r.fieldCosts fields)
  | []                     => rfl
  | (key, value) :: fields => by
    rw [fieldUnits, fieldCosts, List.sum_cons, fieldUnits_exact fields, sizeOf_append,
      mediaUnits_exact]
    cases r.mediaCosts key value
    case none =>
      rw [Option.map_none, Option.getD_none, Option.getD_none, jsonUnits_exact value]
      rfl
    case some => rfl

end

theorem sizeOf_eq (costs : List Cost) : sizeOf costs =
    8000 * (costs.map Cost.pageCount).sum + (costs.map Cost.unitCount).sum := by
  induction costs
  case nil => rfl
  case cons cost costs hi =>
    rw [sizeOf, List.map_cons, List.map_cons, List.map_cons, List.sum_cons, List.sum_cons,
      List.sum_cons, ←sizeOf, hi]
    cases cost <;> simp only [Cost.size, Cost.pageCount, Cost.unitCount, pdfPageTokens] <;> omega

-- How much is estimated if nothing wraps.
theorem jsonUnits_eq (value : Json) :
    r.jsonUnits .exact value = 8000 * r.allPages value + r.allUnits value := by
  rw [jsonUnits_exact, sizeOf_eq, allPages, allUnits]

theorem checked_isSome (value : Json) : (r.jsonUnits (.checked 64) value).isSome ↔
    8000 * r.allPages value + r.allUnits value < 2 ^ 64 := by
  rw [jsonUnits_simulates Arithmetic.exact_checked value, Arithmetic.fit_isSome, jsonUnits_eq]

theorem wrapping_eq (value : Json) :
    r.jsonUnits (.wrapping 64) value = r.jsonUnits .exact value % 2 ^ 64 :=
  jsonUnits_simulates Arithmetic.exact_wrapping value

theorem estimateUnits_wrapping (format base64 : String) :
    r.estimateUnits (.wrapping 64) format base64 =
      r.estimateUnits .exact format base64 % 2 ^ 64 :=
  estimateUnits_simulates Arithmetic.exact_wrapping _ _

end Exact

-- Whether a field is a list of images or attachments.
def isMedia (key : String) (value : Json) : Bool :=
  value.asArr?.isSome && (key = "images" || key = "documents")

-- What's counted on its own in a value.
inductive Part : Json → Json → Prop
  | item {items value} : value ∈ items → Part value (.arr items)
  | field {fields key value} : (key, value) ∈ fields → ¬isMedia key value →
    Part value (.obj fields)
  | trans {u v w} : Part u v → Part v w → Part u w

-- Attachments in a value.
inductive Attached : Json → Json → Prop
  | here {fields documents document} : ("documents", .arr documents) ∈ fields →
    document ∈ documents → Attached document (.obj fields)
  | part {document v w} : Attached document v → Part v w → Attached document w

-- A value without an attachment, an image or something else that's in it.
inductive Without : Json → Json → Prop
  | media {before after xs ys key x} : key = "images" ∨ key = "documents" →
    Without (.obj (before ++ (key, .arr (xs ++ ys)) :: after))
      (.obj (before ++ (key, .arr (xs ++ x :: ys)) :: after))
  | item {xs ys x} : Without (.arr (xs ++ ys)) (.arr (xs ++ x :: ys))
  | field {before after f} : Without (.obj (before ++ after)) (.obj (before ++ f :: after))
  | inItem {xs ys v w} : Without v w → Without (.arr (xs ++ v :: ys)) (.arr (xs ++ w :: ys))
  | inField {before after key v w} : Without v w → ¬isMedia key v → ¬isMedia key w →
    Without (.obj (before ++ (key, v) :: after)) (.obj (before ++ (key, w) :: after))

section Monotone

variable {r : Readers} {key : String} {v w document : Json}

theorem mediaCosts_none (h : ¬isMedia key v) : r.mediaCosts key v = none := by
  rw [mediaCosts]
  split
  case h_1 => rfl
  case h_2 entries he =>
    simp [isMedia, he] at h
    rw [if_neg h.left, if_neg h.right]

theorem itemCosts_append (xs ys : List Json) :
    r.itemCosts (xs ++ ys) = r.itemCosts xs ++ r.itemCosts ys := by
  induction xs
  case nil => rfl
  case cons x xs hi => rw [List.cons_append, itemCosts, itemCosts, hi, List.append_assoc]

theorem fieldCosts_append (fs gs : List (String × Json)) :
    r.fieldCosts (fs ++ gs) = r.fieldCosts fs ++ r.fieldCosts gs := by
  induction fs
  case nil => rfl
  case cons f fs hi => rw [List.cons_append, fieldCosts, fieldCosts, hi, List.append_assoc]

theorem Part.sizeOf_le (h : Part v w) : sizeOf (r.costs v) ≤ sizeOf (r.costs w) := by
  induction h
  case item hm =>
    have ⟨xs, ys, he⟩ := List.append_of_mem hm
    rw [he, costs, itemCosts_append, itemCosts, sizeOf_append, sizeOf_append]
    omega
  case field key value hm hn =>
    have ⟨fs, gs, he⟩ := List.append_of_mem hm
    rw [he, costs, fieldCosts_append, fieldCosts, mediaCosts_none hn, Option.getD_none,
      sizeOf_append, sizeOf_append, ←List.singleton_append, sizeOf_append]
    omega
  case trans h₁ h₂ => exact h₁.trans h₂

-- What's counted of an attachment.
def costOf (r : Readers) (document : Json) : Cost :=
  r.documentCost (((document.get? "format").bind (·.asStr?)).getD "")
    (((document.get? "source").bind (·.get? "bytes")).bind (·.asStr?) |>.getD "")

theorem mediaCosts_documents (documents : List Json) :
    r.mediaCosts "documents" (.arr documents) = some (documents.map r.costOf) := rfl

theorem mediaCosts_images (images : List Json) :
    r.mediaCosts "images" (.arr images) = some [.units (images.length * imageTokens * 4)] := rfl

theorem Attached.size_le (h : Attached document v) :
    (r.costOf document).size ≤ sizeOf (r.costs v) := by
  induction h
  case here documents document hm hd =>
    have ⟨fs, gs, he⟩ := List.append_of_mem hm
    have ⟨xs, ys, hx⟩ := List.append_of_mem hd
    rw [he, hx, costs, fieldCosts_append, fieldCosts, mediaCosts_documents, Option.getD_some,
      sizeOf_append, sizeOf_append, List.map_append, List.map_cons, sizeOf_append,
      ←List.singleton_append, sizeOf_append]
    have hs : sizeOf [r.costOf document] = (r.costOf document).size := Nat.add_zero _
    omega
  case part hp hi => exact hi.trans hp.sizeOf_le

theorem sizeOf_media_le (r : Readers) (xs ys : List Json) (x : Json)
    (h : key = "images" ∨ key = "documents") :
    ∃ costs costs', r.mediaCosts key (.arr (xs ++ ys)) = some costs ∧
      r.mediaCosts key (.arr (xs ++ x :: ys)) = some costs' ∧ sizeOf costs ≤ sizeOf costs' := by
  rcases h with he | he
  · subst he
    refine ⟨_, _, mediaCosts_images _, mediaCosts_images _, ?_⟩
    simp only [sizeOf, List.map_cons, List.map_nil, List.sum_cons, List.sum_nil, Cost.size,
      List.length_append, List.length_cons, imageTokens]
    omega
  · subst he
    refine ⟨_, _, mediaCosts_documents _, mediaCosts_documents _, ?_⟩
    rw [List.map_append, List.map_append, List.map_cons, sizeOf_append, sizeOf_append,
      ←List.singleton_append, sizeOf_append]
    omega

theorem Without.sizeOf_le (h : Without v w) : sizeOf (r.costs v) ≤ sizeOf (r.costs w) := by
  induction h
  case media xs ys key x hk =>
    have ⟨costs₁, costs₂, h₁, h₂, hle⟩ := sizeOf_media_le r xs ys x hk
    simp only [costs, fieldCosts_append, fieldCosts, h₁, h₂, Option.getD_some, sizeOf_append]
    omega
  case item =>
    simp only [costs, itemCosts_append, itemCosts, sizeOf_append]
    omega
  case field f =>
    have ⟨key, value⟩ := f
    simp only [costs, fieldCosts_append, fieldCosts, sizeOf_append]
    omega
  case inItem hi =>
    simp only [costs, itemCosts_append, itemCosts, sizeOf_append]
    omega
  case inField key u w _ hu hw hi =>
    simp only [costs, fieldCosts_append, fieldCosts, sizeOf_append, mediaCosts_none hu,
      mediaCosts_none hw, Option.getD_none, ←List.singleton_append (l := costs _ _)]
    omega

end Monotone

-- Whether nothing that's computed for an estimate wraps, so that no part of a value, and no value
-- without some part of it, counts for more.
structure NeverWraps (r : Readers) (value : Json) : Prop where
  fits      : (r.jsonUnits (.checked 64) value).isSome
  parts     : ∀ part, Part part value → r.estimateJsonTokens part ≤ r.estimateJsonTokens value
  documents : ∀ document, Attached document value →
    tokensFromUnits (r.documentUnits (.wrapping 64) document) ≤ r.estimateJsonTokens value
  without   : ∀ rest, Without rest value → r.estimateJsonTokens rest ≤ r.estimateJsonTokens value

section Wraps

variable {r : Readers} {v value document : Json}

theorem tokensFromUnits_le {m n : Nat} (h : m ≤ n) : tokensFromUnits m ≤ tokensFromUnits n := by
  rw [tokensFromUnits, tokensFromUnits]
  omega

theorem wrapping_le {m n : Nat} (h : m ≤ n) (hn : n < 2 ^ 64) : m % 2 ^ 64 ≤ n % 2 ^ 64 := by
  rwa [Nat.mod_eq_of_lt hn, Nat.mod_eq_of_lt (h.trans_lt hn)]

theorem estimate_le (h : sizeOf (r.costs v) ≤ sizeOf (r.costs value))
    (hv : sizeOf (r.costs value) < 2 ^ 64) :
    r.estimateJsonTokens v ≤ r.estimateJsonTokens value := by
  rw [estimateJsonTokens, estimateJsonTokens, wrapping_eq, wrapping_eq, jsonUnits_exact,
    jsonUnits_exact]
  exact tokensFromUnits_le (wrapping_le h hv)

theorem document_le (h : Attached document value) (hv : sizeOf (r.costs value) < 2 ^ 64) :
    tokensFromUnits (r.documentUnits (.wrapping 64) document) ≤ r.estimateJsonTokens value := by
  rw [estimateJsonTokens, wrapping_eq, jsonUnits_exact, documentUnits, estimateUnits_wrapping,
    estimateUnits_exact]
  exact tokensFromUnits_le (wrapping_le h.size_le hv)

-- Nothing wraps unless the pages that PDFs claim to have, and what else there is, are too much.
theorem neverWraps_iff (r : Readers) (value : Json) : NeverWraps r value ↔
    8000 * r.allPages value + r.allUnits value < 2 ^ 64 := by
  constructor
  · intro h
    exact (checked_isSome value).mp h.fits
  · intro h
    have hv : sizeOf (r.costs value) < 2 ^ 64 := by rwa [←jsonUnits_exact, jsonUnits_eq]
    exact ⟨(checked_isSome value).mpr h, fun _ hp => estimate_le hp.sizeOf_le hv,
      fun _ hd => document_le hd hv, fun _ hw => estimate_le hw.sizeOf_le hv⟩

end Wraps

-- A PDF that claims so many pages that sixteen tokens less are counted with it.
def manyPages : Readers where
  decode text :=
    if text = "PDwvVHlwZSAvUGFnZXMgL0NvdW50IDIzOTgwNzY3Mjk1ODIyNDE3MT4+" then
      some (Bytes.ascii "<</Type /Pages /Count 239807672958224171>>")
    else none
  inflate _   := []

def requestWith (documents : List Json) : Json :=
  .obj [("content", .str "The attached manual says how the machine is cleaned after each use."),
    ("documents", .arr documents)]

def manyPagesPdf : Json :=
  .obj [("format", .str "pdf"), ("source", .obj [("bytes",
    .str "PDwvVHlwZSAvUGFnZXMgL0NvdW50IDIzOTgwNzY3Mjk1ODIyNDE3MT4+")])]

theorem manyPages_wraps : ¬NeverWraps manyPages (requestWith [manyPagesPdf]) ∧
    manyPages.estimateJsonTokens (requestWith [manyPagesPdf]) + 16 =
      manyPages.estimateJsonTokens (requestWith []) := by
  have h : manyPages.estimateJsonTokens (requestWith [manyPagesPdf]) + 16 =
      manyPages.estimateJsonTokens (requestWith []) := by decide +kernel
  refine ⟨fun hn => ?_, h⟩
  have hlost : Without (requestWith []) (requestWith [manyPagesPdf]) :=
    @Without.media [_] [] [] [] _ _ (.inr rfl)
  have := hn.without _ hlost
  omega

end Readers

end Gateway
