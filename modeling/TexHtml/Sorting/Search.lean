namespace TexHtml.Sorting

variable {α ε : Type}

def halve (before : Nat → Except ε Bool) : (rounds low width : Nat) → Except ε Nat
  | 0, low, _ => .ok low
  | rounds + 1, low, width =>
    if width = 0 then .ok low
    else do
      if ← before (low + width / 2) then
        halve before rounds (low + width / 2 + 1) (width - width / 2 - 1)
      else halve before rounds low (width / 2)

/-- Strides of 1, 3, 7 and so on, as long as `go` holds at them and they stay below `limit`: the
last stride at which it held, and the next one or the limit. -/
def stride (go : Nat → Except ε Bool) (limit : Nat) :
    (rounds last next : Nat) → Except ε (Nat × Nat)
  | 0, last, _ => .ok (last, limit)
  | rounds + 1, last, next =>
    if next < limit then do
      if ← go next then stride go limit rounds next (2 * next + 1) else return (last, next)
    else .ok (last, limit)

def testAt (test : α → Except ε Bool) (xs : List α) (i : Nat) : Except ε Bool :=
  match xs[i]? with
  | some x => test x
  | none => .ok false

def gallop (before : α → Except ε Bool) (xs : List α) (hint : Nat) : Except ε Nat := do
  let holds := testAt before xs
  if ← holds hint then
    let (last, next) ← stride (fun k => holds (hint + k)) (xs.length - hint) xs.length 0 1
    halve holds xs.length (hint + last + 1) (next - last - 1)
  else
    let (last, next) ←
      stride (fun k => (holds (hint - k)).map (!·)) (hint + 1) xs.length 0 1
    halve holds xs.length (hint + 1 - next) (next - last - 1)

variable (lt : α → α → Except ε Bool)

def gallopLeft (key : α) (xs : List α) (hint : Nat) : Except ε Nat :=
  gallop (fun x => lt x key) xs hint

def gallopRight (key : α) (xs : List α) (hint : Nat) : Except ε Nat :=
  gallop (fun x => (lt key x).map (!·)) xs hint

end TexHtml.Sorting
