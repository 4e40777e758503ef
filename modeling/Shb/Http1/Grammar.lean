import Shb.Http1.Parse

/-!
# Responses as they are sent

What a server puts on the wire, before any parser looks at it: interim heads, a final head, and
a body framed by a length, in chunks, or not there at all. A value of these types is a message
that keeps the grammar; `encode` writes it. What a message says — its length, its codings, the
options of its connection — is read off the value and not off the bytes.

Names and codings are compared without regard to case, as `lower` has it.
-/

namespace Shb.Http1

open Shb.Lib

def crlf : Bytes := [cr, lf]

/-- `to_ascii_lowercase`. -/
def lower (b : UInt8) : UInt8 := if 65 ≤ b && b ≤ 90 then b + 32 else b

def isTchar (b : UInt8) : Bool :=
  isAsciiDigit b || (65 ≤ b && b ≤ 90) || (97 ≤ b && b ≤ 122) ||
    [33, 35, 36, 37, 38, 39, 42, 43, 45, 46, 94, 95, 96, 124, 126].contains b

/-- Optional white space. -/
structure Ows where
  bytes : Bytes
  blank : ∀ b ∈ bytes, isOws b = true

structure Token where
  bytes : Bytes
  nonempty : bytes ≠ []
  tchars : ∀ b ∈ bytes, isTchar b = true

/-- Whether a token is a name that is given in lower case. -/
def Token.is (t : Token) (name : Bytes) : Bool := t.bytes.map lower = name

/-! ## Numbers -/

/-- What decimal digits denote, after `n`. -/
def decimalValue (n : Nat) (digits : List (Fin 10)) :
    Nat := digits.foldl (fun n d => n * 10 + d.val) n

def encodeDecimal (digits : List (Fin 10)) : Bytes := digits.map fun d => UInt8.ofNat (48 + d.val)

structure HexDigit where
  value : Fin 16
  upper : Bool

def HexDigit.encode (d : HexDigit) : UInt8 :=
  UInt8.ofNat (d.value.val + if d.value.val < 10 then 48 else if d.upper then 55 else 87)

def hexValue (n : Nat) (digits : List HexDigit) :
    Nat := digits.foldl (fun n d => n * 16 + d.value.val) n

/-! ## Lists -/

/-- An element of a comma-separated list. It may be empty. -/
structure Element (α : Type) where
  before : Ows
  item : Option α
  after : Ows

def Element.encode {α : Type} (f : α → Bytes) (e : Element α) : Bytes :=
  e.before.bytes ++ (e.item.elim [] f ++ e.after.bytes)

def encodeList {α : Type} (f : α → Bytes) (es : List (Element α)) : Bytes :=
  List.intercalate [44] (es.map (Element.encode f))

/-! ## Transfer codings -/

inductive QuotedByte where
  | text (b : UInt8) (plain : b ≠ 34 ∧ b ≠ 92 ∧ b ≠ lf)
  | pair (b : UInt8) (plain : b ≠ lf)

def QuotedByte.encode : QuotedByte → Bytes
  | text b _ => [b]
  | pair b _ => [92, b]

inductive ParamValue where
  | token (t : Token)
  | quoted (bytes : List QuotedByte)

def ParamValue.encode : ParamValue → Bytes
  | token t => t.bytes
  | quoted bytes => [34] ++ bytes.flatMap QuotedByte.encode ++ [34]

/-- A parameter of a coding, with the white space around its semicolon and its equals sign. -/
structure Param where
  before : Ows
  after : Ows
  name : Token
  left : Ows
  right : Ows
  value : ParamValue

def Param.encode (p : Param) : Bytes :=
  p.before.bytes ++ [59] ++ p.after.bytes ++ p.name.bytes ++ p.left.bytes ++ [61] ++
    p.right.bytes ++ p.value.encode

structure Coding where
  name : Token
  params : List Param

def Coding.encode (c : Coding) : Bytes := c.name.bytes ++ c.params.flatMap Param.encode

/-- The chunked coding has no parameters. -/
def Coding.isChunked (c : Coding) : Bool := c.name.is chunked && c.params.isEmpty

/-! ## Header fields -/

/-- A spelling of a field name. -/
structure Spelling (name : Bytes) where
  bytes : Bytes
  same : bytes.map lower = name

def contentLengthField : Bytes :=
  ascii ['c', 'o', 'n', 't', 'e', 'n', 't', '-', 'l', 'e', 'n', 'g', 't', 'h']

def connectionField : Bytes := ascii ['c', 'o', 'n', 'n', 'e', 'c', 't', 'i', 'o', 'n']

def transferEncodingField : Bytes :=
  ascii ['t', 'r', 'a', 'n', 's', 'f', 'e', 'r', '-', 'e', 'n', 'c', 'o', 'd', 'i', 'n', 'g']

inductive Field where
  | contentLength (name : Spelling contentLengthField) (before : Ows) (digits : List (Fin 10))
      (nonempty : digits ≠ []) (after : Ows)
  | connection (name : Spelling connectionField) (options : List (Element Token))
  | transferEncoding (name : Spelling transferEncodingField) (codings : List (Element Coding))
  /-- Any other field, whatever its value. -/
  | other (name : Token)
      (unread : ¬ name.is contentLengthField ∧ ¬ name.is connectionField ∧
        ¬ name.is transferEncodingField)
      (value : Bytes) (line : lf ∉ value)

namespace Field

def name : Field → Bytes
  | contentLength name .. => name.bytes
  | connection name _ => name.bytes
  | transferEncoding name _ => name.bytes
  | other name .. => name.bytes

def value : Field → Bytes
  | contentLength _ before digits _ after => before.bytes ++ (encodeDecimal digits ++ after.bytes)
  | connection _ options => encodeList Token.bytes options
  | transferEncoding _ codings => encodeList Coding.encode codings
  | other _ _ value _ => value

def encode (f : Field) : Bytes := f.name ++ 58 :: f.value

/-- The length it gives. -/
def lengths : Field → List Nat
  | contentLength _ _ digits _ _ => [decimalValue 0 digits]
  | _ => []

def options : Field → List Token
  | connection _ options => options.filterMap Element.item
  | _ => []

def codings : Field → List Coding
  | transferEncoding _ codings => codings.filterMap Element.item
  | _ => []

def isTransferEncoding : Field → Bool
  | transferEncoding .. => true
  | _ => false

end Field

/-! ## Heads -/

def closeOption : Bytes := ascii ['c', 'l', 'o', 's', 'e']

def keepAliveOption : Bytes := ascii ['k', 'e', 'e', 'p', '-', 'a', 'l', 'i', 'v', 'e']

structure Heading where
  http10 : Bool
  hundreds : Fin 10
  tens : Fin 10
  ones : Fin 10
  /-- Some servers send nothing behind the status code, not even the space. -/
  reason : Option Bytes
  line : ∀ text ∈ reason, lf ∉ text
  fields : List Field

namespace Heading

variable (h : Heading)

def status : Nat := h.hundreds.val * 100 + h.tens.val * 10 + h.ones.val

def encodeStatus : Bytes :=
  ascii ['H', 'T', 'T', 'P', '/', '1', '.'] ++ [if h.http10 then 48 else 49, 32] ++
    encodeDecimal [h.hundreds, h.tens, h.ones] ++ h.reason.elim [] fun text => 32 :: text

def encode (h : Heading) : Bytes :=
  h.encodeStatus ++ crlf ++ (h.fields.flatMap fun f => f.encode ++ crlf) ++ crlf

def lengths (h : Heading) : List Nat := h.fields.flatMap Field.lengths

def options (h : Heading) : List Token := h.fields.flatMap Field.options

def codings (h : Heading) : List Coding := h.fields.flatMap Field.codings

def transferEncoded : Bool := h.fields.any Field.isTransferEncoding

/-- Repeated lengths are the same. -/
def Agrees : Prop := ∀ m ∈ h.lengths, ∀ n ∈ h.lengths, m = n

instance (h : Heading) : Decidable h.Agrees :=
  inferInstanceAs (Decidable (∀ m ∈ h.lengths, ∀ n ∈ h.lengths, m = n))

/-- Every length fits a machine word. -/
def Fits : Prop := ∀ n ∈ h.lengths, n < 2 ^ 64

instance (h : Heading) : Decidable h.Fits := inferInstanceAs
    (Decidable (∀ n ∈ h.lengths, n < 2 ^ 64))

/-- Whether the connection outlives the response: never with `close`; by default in HTTP/1.1;
in HTTP/1.0 if the server says so, and not with a transfer coding, which it does not have. -/
def persists : Bool :=
  if h.options.any (·.is closeOption) then false
  else if h.http10 then h.options.any (·.is keepAliveOption) && !h.transferEncoded
  else true

end Heading

/-! ## Bodies -/

/-- The rest of a size line: nothing, or a semicolon and anything behind it. -/
structure Extension where
  blanks : Ows
  text : Bytes
  line : lf ∉ text

def encodeExtension (ext : Option Extension) : Bytes :=
  ext.elim [] fun e => e.blanks.bytes ++ 59 :: e.text

structure Chunk where
  digits : List HexDigit
  ext : Option Extension
  data : Bytes
  nonempty : data ≠ []
  size : hexValue 0 digits = data.length

def Chunk.encode (c : Chunk) : Bytes :=
  c.digits.map HexDigit.encode ++ encodeExtension c.ext ++ crlf ++ c.data ++ crlf

/-- The chunk of size zero. -/
structure LastChunk where
  digits : List HexDigit
  nonempty : digits ≠ []
  ext : Option Extension
  size : hexValue 0 digits = 0

def LastChunk.encode (c : LastChunk) : Bytes :=
  c.digits.map HexDigit.encode ++ encodeExtension c.ext ++ crlf

structure Trailer where
  bytes : Bytes
  nonempty : bytes ≠ []
  line : lf ∉ bytes

inductive Content where
  | absent
  | sized (data : Bytes)
  | chunked (chunks : List Chunk) (last : LastChunk) (trailers : List Trailer)

def Content.encode : Content → Bytes
  | absent => []
  | sized data => data
  | chunked chunks last trailers =>
    chunks.flatMap Chunk.encode ++ last.encode ++ (trailers.flatMap fun t =>
      t.bytes ++ crlf) ++ crlf

/-! ## Responses -/

structure Response where
  interims : List Heading
  head : Heading
  content : Content

namespace Response

def encode (r : Response) : Bytes :=
  r.interims.flatMap Heading.encode ++ r.head.encode ++ r.content.encode

/-- Whether its body is absent whatever the head says. -/
def bodiless (r : Response) (headRequest : Bool) : Bool := headRequest || noBodyStatus r.head.status

/-- The body is what the head says: nothing; chunks, if the last coding is chunked; or as many
bytes as the length. -/
inductive Framed (headRequest : Bool) : Response → Prop
  | absent {r : Response} (h : r.bodiless headRequest = true) (hc : r.content = .absent) :
      Framed headRequest r
  | chunked {r : Response} {cs : List Chunk} {last : LastChunk} {trailers : List Trailer}
      {coding : Coding} (h : r.bodiless headRequest = false)
      (hlast : r.head.codings.getLast? = some coding) (hcoding : coding.isChunked = true)
      (hc : r.content = .chunked cs last trailers) : Framed headRequest r
  | sized {r : Response} {data : Bytes} (h : r.bodiless headRequest = false)
      (hte : r.head.transferEncoded = false) (hlen : r.head.lengths.head? = some data.length)
      (hc : r.content = .sized data) : Framed headRequest r

/-- A response as a server answers a request that was a HEAD or not. -/
structure WellFormed (headRequest : Bool) (r : Response) : Prop where
  interim : ∀ h ∈ r.interims, isInformational h.status = true ∧ h.status ≠ 101 ∧ h.Agrees
  final : isInformational r.head.status = false
  agrees : r.head.Agrees
  framed : r.Framed headRequest

/-- Every length that it mentions fits a machine word. -/
def Fits (r : Response) : Prop := (∀ h ∈ r.interims, h.Fits) ∧ r.head.Fits

instance (r : Response) : Decidable r.Fits :=
  inferInstanceAs (Decidable ((∀ h ∈ r.interims, h.Fits) ∧ r.head.Fits))

end Response

end Shb.Http1
