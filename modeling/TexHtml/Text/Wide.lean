import TexHtml.Fault.FileError

namespace TexHtml.Text.Wide

inductive Endian where
  | little
  | big
  deriving DecidableEq

namespace Endian

def name : Endian → String
  | little => "le"
  | big => "be"

def octets (order : Endian) (width n : Nat) : List UInt8 :=
  let up := (List.range width).map fun i => (n / Nat.pow 256 i % 256).toUInt8
  match order with
  | little => up
  | big => up.reverse

def number (order : Endian) (octets : List UInt8) : Nat :=
  let down :=
    match order with
    | little => octets.reverse
    | big => octets
  down.foldl (fun n b => n * 256 + b.toNat) 0

end Endian

def byteOrderMark : Nat := 0xFEFF

def encode16 (order : Endian) (cs : List Char) : List UInt8 :=
  cs.flatMap fun c =>
    let n := c.toNat
    if n < 0x10000 then order.octets 2 n
    else
      order.octets 2 (0xD800 + (n - 0x10000) / 1024) ++
        order.octets 2 (0xDC00 + (n - 0x10000) % 1024)

def encode32 (order : Endian) (cs : List Char) : List UInt8 :=
  cs.flatMap fun c => order.octets 4 c.toNat

def failure (codec : String) (start : Nat) (run : List UInt8) (reason : String) : CodecError :=
  .undecodable codec (run.head?.getD 0) start (start + run.length) reason

def isHigh (n : Nat) : Bool := 0xD800 ≤ n && n < 0xDC00

def isLow (n : Nat) : Bool := 0xDC00 ≤ n && n < 0xE000

def decode16 (order : Endian) (start : Nat) : List UInt8 → Except CodecError (List Char)
  | [] => .ok []
  | [a] => .error (failure ("utf-16-" ++ order.name) start [a] "truncated data")
  | a :: b :: rest =>
    let codec := "utf-16-" ++ order.name
    let n := order.number [a, b]
    if isLow n then .error (failure codec start [a, b] "illegal encoding")
    else if isHigh n then
      match rest with
      | c :: d :: rest =>
        let k := order.number [c, d]
        if isLow k then
          (decode16 order (start + 4) rest).map fun cs =>
            Char.ofNat (0x10000 + (n - 0xD800) * 1024 + (k - 0xDC00)) :: cs
        else .error (failure codec start [a, b] "illegal UTF-16 surrogate")
      | tail => .error (failure codec start (a :: b :: tail) "unexpected end of data")
    else (decode16 order (start + 2) rest).map fun cs => Char.ofNat n :: cs

def decode32 (order : Endian) (start : Nat) : List UInt8 → Except CodecError (List Char)
  | [] => .ok []
  | a :: b :: c :: d :: rest =>
    let codec := "utf-32-" ++ order.name
    let n := order.number [a, b, c, d]
    if isHigh n || isLow n then
      .error (failure codec start [a, b, c, d]
        "code point in surrogate code point range(0xd800, 0xe000)")
    else if 0x10FFFF < n then
      .error (failure codec start [a, b, c, d] "code point not in range(0x110000)")
    else (decode32 order (start + 4) rest).map fun cs => Char.ofNat n :: cs
  | tail => .error (failure ("utf-32-" ++ order.name) start tail "truncated data")

def markedOrder? (width : Nat) (octets : List UInt8) : Option Endian :=
  let mark := octets.take width
  if mark = Endian.little.octets width byteOrderMark then some .little
  else if mark = Endian.big.octets width byteOrderMark then some .big
  else none

/-- Reads a text whose order of octets a mark shows. Text without a mark is read in the usual order
before the lack of the mark is reported. -/
def decodeMarked (width : Nat) (name : String)
    (decode : Endian → Nat → List UInt8 → Except CodecError (List Char)) (octets : List UInt8) :
    Except CodecError (List Char) :=
  match markedOrder? width octets with
  | some order => decode order width (octets.drop width)
  | none =>
    match decode .little 0 octets with
    | .error e => .error e
    | .ok [] => .ok []
    | .ok (_ :: _) => .error (.noByteOrderMark name)

end TexHtml.Text.Wide
