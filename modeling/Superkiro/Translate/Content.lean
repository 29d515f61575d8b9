import Superkiro.Lib.JsonText
import Superkiro.Translate.Request

namespace Translate

-- What an image's header says.
structure ImageHeader where
  byteLen : Nat
  format  : String
  width   : Nat
  height  : Nat

-- What can be read of attachments: an image's header, whether a PDF has a password or was refused
-- by an upstream before, and a file's text.
class Attachments where
  validateImageInput : String → Option ImageHeader
  pdfEncrypted       : KiroDocument → Bool
  refusedReason      : KiroDocument → Option String
  textOf             : KiroDocument → Option String

open Attachments

def asciiLower (s : String) : String := .ofList (s.toList.map Text.lowerAscii)

def trimDots (s : String) : String := .ofList (s.toList.dropWhile (· = '.'))

inductive DocumentKind
  | pdf
  | text
  | unsupported
  deriving DecidableEq

def textFormats : List String := [
  "txt", "md", "markdown", "csv", "tsv", "html", "htm", "json", "jsonl", "xml", "yaml", "yml",
  "toml", "ini", "log", "sql", "js", "jsx", "ts", "tsx", "py", "rs", "go", "java", "kt", "c",
  "h", "cc", "cpp", "hpp", "cs", "rb", "php", "swift", "sh", "bash", "ps1", "css", "scss", "vue",
  "svelte", "lua", "dart", "scala", "r"]

def documentKind (format : String) : DocumentKind :=
  let format := asciiLower (trimDots (Text.trim format))
  if format = "pdf" then .pdf
  else if textFormats.contains format then .text
  else .unsupported

-- The file's name with its extension, which Kiro leaves out.
def fileName (d : KiroDocument) : String :=
  let format := trimDots (Text.trim d.format)
  let name := Text.trim d.name
  let name := if name = "" then "document" else name
  if format = "" || Text.endsWith (asciiLower name).toList ('.' :: format.toList) then name
  else name ++ "." ++ format

def textPart (text : String) : Json := .obj [("text", .str text), ("type", .str "text")]

inductive Omission
  | unreadable
  | overCount
  | busy
  deriving DecidableEq

inductive PreparedImage
  | original (format : String)
  | resized (base64Data : String)
  | omitted (o : Omission)
  deriving DecidableEq

inductive Inspection
  | ready (p : PreparedImage)
  | needsShrink

-- Where a message is in its request.
inductive Turn
  | history (position : Nat)
  | current
  deriving DecidableEq

structure PreparedImages where
  history : List (List PreparedImage) := []
  current : List PreparedImage := []

def PreparedImages.get (p : PreparedImages) (turn : Turn) (index : Nat) : Option PreparedImage :=
  match turn with
  | .history position => p.history[position]?.bind (·[index]?)
  | .current          => p.current[index]?

structure TranslationContext where
  toolRegistry        : ToolRegistry := {}
  targetModel         : String
  supportsVision      : Bool
  imageTranscriptions : List (Option String) := []
  preparedImages      : PreparedImages := {}

def mediaType (format : String) : String :=
  if format = "png" then "image/png"
  else if format = "webp" then "image/webp"
  else if format = "gif" then "image/gif"
  else "image/jpeg"

def omissionNote (number : Nat) (omission : Omission) : String :=
  let reason :=
    match omission with
    | .unreadable => "图片数据无法读取 / the image data cannot be read"
    | .overCount  =>
      "对话中较早的图片不再随每轮发送 / earlier images in the conversation are not resent on every turn"
    | .busy       => "网关暂时无法处理这张图片 / the gateway could not process this image in time"
  "[图片 #" ++ toString number ++ " 已省略 / Image #" ++ toString number ++ " omitted: " ++ reason ++ "]"

def formatFallbackDescription (index : Nat) (format : String) (byteLen : Nat)
    (dimensions : Option (Nat × Nat)) (transcription : Option String) : String :=
  let detail :=
    match transcription with
    | some desc => "- 视觉模型转写结果:\n" ++ Text.trim desc
    | none      => "- 图像内容转录: [用户附加了图片。当前目标模型为纯文本模型，网关已自动执行视觉降级保护，将图像转为文本上下文]"
  let size :=
    match dimensions with
    | some (width, height) => "尺寸: " ++ toString width ++ "x" ++ toString height
    | none                 => "无法读取"
  "[视觉降级/Vision Fallback - 图片转文字 #" ++ toString index ++ "]\n- 图片格式: " ++ format ++
  " (体积: " ++ toString byteLen ++ " 字节, " ++ size ++ ")\n" ++ detail

def imagePart (url : String) : Json :=
  .obj [("image_url", .obj [("url", .str url)]), ("type", .str "image_url")]

section

variable [Attachments]

def contentPart (d : KiroDocument) (readsPdf : Bool) : Json :=
  let name := fileName d
  let note why := textPart ("[附件 " ++ name ++ " 未发送 / attachment not sent: " ++ why ++ "]")
  let kind := documentKind d.format
  if kind = .pdf && (refusedReason d).isSome then
    note "上游模型此前拒绝读取这个文件 / an upstream refused this file"
  else if kind = .pdf && readsPdf && pdfEncrypted d then
    note "文件已加密，模型无法读取 / the file is password-protected"
  else
    match kind with
    | .text =>
      match textOf d with
      | some text => textPart ("<document name=\"" ++ name ++ "\">\n" ++ text ++ "\n</document>")
      | none      => note "文件数据无法读取 / the file data cannot be read"
    | .pdf =>
      if readsPdf then
        .obj [
          ("file", .obj [
            ("file_data", .str ("data:application/pdf;base64," ++ Text.trim d.bytes)),
            ("filename", .str name)]),
          ("type", .str "file")]
      else note "当前模型不能读取 PDF / this model does not read PDF files"
    | .unsupported => note "当前模型不能读取这种格式 / this format cannot be read by the model"

def defaultMaxLongSide : Nat := 1568

def defaultMaxBytes : Nat := 400000

-- Small images go as they are, and so do animations whatever their size.
def inspectImage (base64Data : String) : Inspection :=
  match validateImageInput base64Data with
  | none   => .ready (.omitted .unreadable)
  | some i =>
    let fitsSize := i.width ≤ defaultMaxLongSide && i.height ≤ defaultMaxLongSide
    if i.byteLen ≤ defaultMaxBytes && (fitsSize || i.format = "gif") then .ready (.original i.format)
    else .needsShrink

variable (ctx : TranslationContext) (turn : Turn)

-- How an image that wasn't prepared reaches a model is told by its header alone.
def prepared (index : Nat) (img : KiroImage) : PreparedImage :=
  match ctx.preparedImages.get turn index with
  | some p => p
  | none   =>
    match inspectImage img.bytes with
    | .ready p     => p
    | .needsShrink => .omitted .busy

def imageContent (index : Nat) (img : KiroImage) : Json :=
  match prepared ctx turn index img with
  | .original format => imagePart ("data:" ++ mediaType format ++ ";base64," ++ Text.trim img.bytes)
  | .resized data    => imagePart ("data:image/jpeg;base64," ++ data)
  | .omitted o       => textPart (omissionNote (index + 1) o)

-- What a model that sees no images is told of one.
def imageFallback (index : Nat) (img : KiroImage) : String :=
  let transcription := if turn = .current then (ctx.imageTranscriptions[index]?).bind id else none
  match validateImageInput img.bytes with
  | some i =>
    formatFallbackDescription (index + 1) i.format i.byteLen (some (i.width, i.height)) transcription
  | none   =>
    formatFallbackDescription (index + 1) (Text.trim img.format)
      (Text.len (Text.trim img.bytes) / 4 * 3) none transcription

-- Attachments come first. Images are only described to a model that doesn't see them.
def formatUserContent (content : String) (images : List KiroImage) (documents : List KiroDocument) :
    Json :=
  if images.isEmpty && documents.isEmpty then .str content
  else
    let attachments := documents.map (contentPart · ctx.supportsVision)
    if ctx.supportsVision then
      let text := if content = "" then [] else [textPart content]
      .arr (attachments ++ text ++ images.mapIdx (imageContent ctx turn))
    else
      let texts := attachments.filterMap fun part => (part.get? "text").bind Json.asStr?
      let text := texts.foldl (fun text t => text ++ t ++ "\n\n") ""
      .str ((images.mapIdx (imageFallback ctx turn)).foldl (fun text t => text ++ "\n" ++ t)
        (text ++ content))

end

-- A block of a tool's result as a model reads it: text as it is, and JSON pretty printed.
def blockText : Json → String
  | .str text => text
  | block     =>
    match block.get? "text", block.get? "json" with
    | some (.str text), _ => text
    | _, some json        => json.pretty
    | _, none             => block.compact

def toolResultText (blocks : List Json) : String := Text.join "\n" (blocks.map blockText)

end Translate
