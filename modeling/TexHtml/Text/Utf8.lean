import TexHtml.Fault.FileError

/-!
UTF-8. Octets that are no text are reported as the longest run that a character could begin with.
-/

namespace TexHtml.Text.Utf8

def encodeChar (c : Char) : List UInt8 :=
  let n := c.toNat
  if n < 0x80 then [n.toUInt8]
  else if n < 0x800 then [(0xC0 + n / 64).toUInt8, (0x80 + n % 64).toUInt8]
  else if n < 0x10000 then
    [(0xE0 + n / 4096).toUInt8, (0x80 + n / 64 % 64).toUInt8, (0x80 + n % 64).toUInt8]
  else
    [(0xF0 + n / 262144).toUInt8, (0x80 + n / 4096 % 64).toUInt8, (0x80 + n / 64 % 64).toUInt8,
      (0x80 + n % 64).toUInt8]

def encode (cs : List Char) : List UInt8 := cs.flatMap encodeChar

inductive Head where
  | char (c : Char) (rest : List UInt8)
  | cut
  | bad (count : Nat) (reason : String)

def between (low high : Nat) (b : UInt8) : Bool := low ≤ b.toNat && b.toNat ≤ high

/-- The octets that may follow a first one: how many of them there are, and the range of the
nearest. The range keeps out surrogates, numbers beyond the last character and spellings that are
too long. -/
def followers (b : UInt8) : Option (Nat × Nat × Nat) :=
  if between 0xC2 0xDF b then some (1, 0x80, 0xBF)
  else if b = 0xE0 then some (2, 0xA0, 0xBF)
  else if b = 0xED then some (2, 0x80, 0x9F)
  else if between 0xE1 0xEF b then some (2, 0x80, 0xBF)
  else if b = 0xF0 then some (3, 0x90, 0xBF)
  else if b = 0xF4 then some (3, 0x80, 0x8F)
  else if between 0xF1 0xF3 b then some (3, 0x80, 0xBF)
  else none

def leading (b : UInt8) : Nat :=
  if b.toNat < 0xE0 then b.toNat - 0xC0
  else if b.toNat < 0xF0 then b.toNat - 0xE0
  else b.toNat - 0xF0

def continued (number done : Nat) :
    (count low high : Nat) → List UInt8 → Head
  | 0, _, _, rest => .char (Char.ofNat number) rest
  | _ + 1, _, _, [] => .cut
  | count + 1, low, high, b :: rest =>
    if between low high b then
      continued (number * 64 + (b.toNat - 0x80)) (done + 1) count 0x80 0xBF rest
    else .bad done "invalid continuation byte"

def head (b : UInt8) (rest : List UInt8) : Head :=
  if b.toNat < 0x80 then .char (Char.ofNat b.toNat) rest
  else
    match followers b with
    | none => .bad 1 "invalid start byte"
    | some (count, low, high) => continued (leading b) 1 count low high rest

theorem length_of_continued {number done count low high : Nat} {s rest : List UInt8} {c : Char}
    (h : continued number done count low high s = .char c rest) : rest.length ≤ s.length := by
  induction count generalizing number done low high s with
  | zero =>
    simp only [continued, Head.char.injEq] at h
    exact Nat.le_of_eq (congrArg List.length h.2).symm
  | succ count ih =>
    cases s with
    | nil => simp [continued] at h
    | cons b s =>
      simp only [continued] at h
      split at h
      · exact Nat.le_succ_of_le (ih h)
      · simp at h

theorem length_of_head {b : UInt8} {s rest : List UInt8} {c : Char}
    (h : head b s = .char c rest) : rest.length ≤ s.length := by
  unfold head at h
  split at h
  · simp only [Head.char.injEq] at h
    exact Nat.le_of_eq (congrArg List.length h.2).symm
  · split at h
    · simp at h
    · exact length_of_continued h

inductive Stop where
  | finished
  | cut (tail : List UInt8)
  | bad (first : UInt8) (start count : Nat) (reason : String)

def scan (start : Nat) (octets : List UInt8) : List Char × Stop :=
  match octets with
  | [] => ([], .finished)
  | b :: rest =>
    match _h : head b rest with
    | .char c rest' =>
      let (cs, stop) := scan (start + (encodeChar c).length) rest'
      (c :: cs, stop)
    | .cut => ([], .cut (b :: rest))
    | .bad count reason => ([], .bad b start count reason)
termination_by octets.length
decreasing_by exact Nat.lt_succ_of_le (length_of_head _h)

def badRun (first : UInt8) (start count : Nat) (reason : String) : CodecError :=
  .undecodable "utf-8" first start (start + count) reason

def cutShort (start : Nat) (tail : List UInt8) : CodecError :=
  badRun (tail.head?.getD 0) start tail.length "unexpected end of data"

def decode (octets : List UInt8) : Except CodecError (List Char) :=
  match scan 0 octets with
  | (cs, .finished) => .ok cs
  | (_, .cut tail) => .error (cutShort (octets.length - tail.length) tail)
  | (_, .bad first start count reason) => .error (badRun first start count reason)

/-- Where a reader of blocks of `size` octets finds the first octets that are no text. Positions
count from the start of the block, or of the character that the block before it ended inside;
`pending` holds that character, and `rounds` bounds the number of blocks. -/
def firstBadInBlocks (size : Nat) :
    (rounds : Nat) → (pending octets : List UInt8) → Option CodecError
  | _, pending, [] => if pending.isEmpty then none else some (cutShort 0 pending)
  | 0, _, _ :: _ => none
  | rounds + 1, pending, octets =>
    match scan 0 (pending ++ octets.take size) with
    | (_, .finished) => firstBadInBlocks size rounds [] (octets.drop size)
    | (_, .cut tail) => firstBadInBlocks size rounds tail (octets.drop size)
    | (_, .bad first start count reason) => some (badRun first start count reason)

def blockSize : Nat := 8192

def decodeInBlocks (octets : List UInt8) : Except CodecError (List Char) :=
  match decode octets with
  | .ok cs => .ok cs
  | .error e => .error ((firstBadInBlocks blockSize octets.length [] octets).getD e)

end TexHtml.Text.Utf8
