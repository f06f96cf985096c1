import TexHtml.Text.Utf8
import TexHtml.Text.Wide

namespace TexHtml.Text

/-- A wide encoding without an order of octets begins with a mark that shows it. -/
inductive Encoding where
  | ascii
  | latin1
  | utf8 (marked : Bool)
  | utf16 (order : Option Wide.Endian)
  | utf32 (order : Option Wide.Endian)
  deriving DecidableEq

namespace Encoding

/-- A name in lower case in which every run of characters other than letters, digits and points is
one underscore, none at the ends. -/
def normalName (name : List Char) : List Char :=
  let plain (c : Char) : Bool := c.isAlphanum || c = '.'
  let squeezed := name.foldr
    (fun c acc =>
      if plain c then c.toLower :: acc
      else
        match acc with
        | [] => []
        | '_' :: _ => acc
        | _ => '_' :: acc) []
  squeezed.dropWhile (· = '_')

def names : List (Encoding × String × List String) :=
  [(ascii, "ascii", ["646", "ansi_x3.4_1968", "ansi_x3_4_1968", "ansi_x3.4_1986", "cp367",
      "csascii", "ibm367", "iso646_us", "iso_646.irv_1991", "iso_ir_6", "us", "us_ascii"]),
   (latin1, "latin_1", ["8859", "cp819", "csisolatin1", "ibm819", "iso8859", "iso8859_1",
      "iso_8859_1", "iso_8859_1_1987", "iso_ir_100", "l1", "latin", "latin1"]),
   (utf8 false, "utf_8", ["u8", "utf", "utf8", "utf8_ucs2", "utf8_ucs4", "cp65001"]),
   (utf8 true, "utf_8_sig", []),
   (utf16 none, "utf_16", ["u16", "utf16"]),
   (utf16 (some .big), "utf_16_be", ["unicodebigunmarked", "utf_16be"]),
   (utf16 (some .little), "utf_16_le", ["unicodelittleunmarked", "utf_16le"]),
   (utf32 none, "utf_32", ["u32", "utf32"]),
   (utf32 (some .big), "utf_32_be", ["utf_32be"]),
   (utf32 (some .little), "utf_32_le", ["utf_32le"])]

def systemName : String := "locale"

/-- The encoding of a name. A point may stand for an underscore in a further name. -/
def ofName? (name : String) : Option Encoding :=
  let plain := normalName name.toList
  let pointless := plain.map fun c => if c = '.' then '_' else c
  if name = systemName then some (utf8 false)
  else
    (names.find? fun e =>
      e.2.1 = String.ofList plain || e.2.2.contains (String.ofList plain) ||
        e.2.2.contains (String.ofList pointless)).map Prod.fst

def ofName (name : String) : Except CodecError Encoding :=
  match ofName? name with
  | some e => .ok e
  | none => .error (.unknownEncoding name)

def decodeNarrow (codec : String) (limit : Nat) (octets : List UInt8) :
    Except CodecError (List Char) :=
  let good := octets.takeWhile fun b => b.toNat < limit
  match octets.dropWhile fun b => b.toNat < limit with
  | [] => .ok (good.map fun b => Char.ofNat b.toNat)
  | b :: _ =>
    .error (.undecodable codec b good.length (good.length + 1) s!"ordinal not in range({limit})")

/-- Writes characters with numbers below `limit`; an error covers the whole run of others. -/
def encodeNarrow (codec : String) (limit : Nat) (cs : List Char) :
    Except CodecError (List UInt8) :=
  let good := cs.takeWhile fun c => c.toNat < limit
  match cs.dropWhile fun c => c.toNat < limit with
  | [] => .ok (good.map fun c => c.toNat.toUInt8)
  | c :: rest =>
    let run := (c :: rest).takeWhile fun c => !decide (c.toNat < limit)
    .error (.unencodable codec c good.length (good.length + run.length)
      s!"ordinal not in range({limit})")

def utf8Mark : List UInt8 := [0xEF, 0xBB, 0xBF]

/-- A mark in front of UTF-8 is dropped, and so is a text that ends inside the mark. -/
def decodeUtf8Marked (octets : List UInt8) : Except CodecError (List Char) :=
  if utf8Mark.isPrefixOf octets then Utf8.decode (octets.drop 3)
  else if octets.isPrefixOf utf8Mark then .ok []
  else Utf8.decode octets

def decode (e : Encoding) (octets : List UInt8) : Except CodecError (List Char) :=
  match e with
  | ascii => decodeNarrow "ascii" 128 octets
  | latin1 => decodeNarrow "latin-1" 256 octets
  | utf8 false => Utf8.decode octets
  | utf8 true => decodeUtf8Marked octets
  | utf16 (some order) => Wide.decode16 order 0 octets
  | utf16 none => Wide.decodeMarked 2 "UTF-16" Wide.decode16 octets
  | utf32 (some order) => Wide.decode32 order 0 octets
  | utf32 none => Wide.decodeMarked 4 "UTF-32" Wide.decode32 octets

def encode (e : Encoding) (cs : List Char) : Except CodecError (List UInt8) :=
  match e with
  | ascii => encodeNarrow "ascii" 128 cs
  | latin1 => encodeNarrow "latin-1" 256 cs
  | utf8 false => .ok (Utf8.encode cs)
  | utf8 true => .ok (utf8Mark ++ Utf8.encode cs)
  | utf16 (some order) => .ok (Wide.encode16 order cs)
  | utf16 none =>
    .ok (Wide.Endian.little.octets 2 Wide.byteOrderMark ++ Wide.encode16 .little cs)
  | utf32 (some order) => .ok (Wide.encode32 order cs)
  | utf32 none =>
    .ok (Wide.Endian.little.octets 4 Wide.byteOrderMark ++ Wide.encode32 .little cs)

end Encoding

structure Codec where
  decode : List UInt8 → Except CodecError (List Char)
  encode : List Char → Except CodecError (List UInt8)

abbrev Codecs := String → Except CodecError Codec

def standardCodecs : Codecs := fun name =>
  match Encoding.ofName name with
  | .ok e => .ok ⟨e.decode, e.encode⟩
  | .error e => .error e

end TexHtml.Text
