import TexHtml.Sorting.Merge
import TexHtml.Sorting.Run

/-!
Sorting by runs. Runs are found from left to right and kept on a stack. The power of the border
between two runs is the depth that it has in a nearly balanced tree of merges, and runs are merged
as soon as a border of less power follows. Equal members keep their order. The order may fail, and
it need not be an order at all; the result is fixed all the same, since the comparisons are.
-/

namespace TexHtml.Sorting

variable {α ε : Type}

def splitDepth (n : Nat) : (rounds a b : Nat) → Nat
  | 0, _, _ => 0
  | rounds + 1, a, b =>
    if n ≤ a then splitDepth n rounds (2 * (a - n)) (2 * (b - n)) + 1
    else if n ≤ b then 1
    else splitDepth n rounds (2 * a) (2 * b) + 1

/-- Power of the border between a run that begins at `start` and the run behind it, in a list of
length `n`: the depth at which the middles of the two runs are separated. -/
def borderPower (n start length next : Nat) : Nat :=
  splitDepth n (n + 1) (2 * start + length) (2 * start + 2 * length + next)

structure Pending (α : Type) where
  start : Nat
  members : List α
  power : Nat

/-- The least length of a run: a length below 64, and that of a whole list shorter than that. It is
the quotient of the length by a power of two, rounded up; `odd` is 1 if a bit was dropped. -/
def leastRun : (rounds n odd : Nat) → Nat
  | 0, n, odd => n + odd
  | rounds + 1, n, odd => if n < 64 then n + odd else leastRun rounds (n / 2) (max odd (n % 2))

variable (lt : α → α → Except ε Bool)

def mergeAbove (power : Nat) : (patience : Nat) → Pending α → List (Pending α) →
    Except ε (Nat × Pending α × List (Pending α))
  | patience, top, [] => .ok (patience, top, [])
  | patience, top, below :: rest =>
    if power < below.power then do
      let (merged, patience) ← mergeRuns lt patience below.members top.members
      mergeAbove power patience { below with members := merged } rest
    else .ok (patience, top, below :: rest)

def push (n patience : Nat) (start : Nat) (run : List α) :
    List (Pending α) → Except ε (Nat × List (Pending α))
  | [] => .ok (patience, [⟨start, run, 0⟩])
  | top :: rest => do
    let power := borderPower n top.start top.members.length run.length
    let (patience, top, rest) ← mergeAbove lt power patience top rest
    return (patience, ⟨start, run, 0⟩ :: { top with power } :: rest)

def stackRuns (n least : Nat) : (rounds patience start : Nat) → List (Pending α) → List α →
    Except ε (Nat × List (Pending α))
  | 0, patience, _, stack, _ => .ok (patience, stack)
  | _ + 1, patience, _, stack, [] => .ok (patience, stack)
  | rounds + 1, patience, start, stack, x :: xs => do
    let (run, rest) ← firstRun lt least (x :: xs)
    let (patience, stack) ← push lt n patience start run stack
    stackRuns n least rounds patience (start + run.length) stack rest

/-- Merges all runs on the stack, given from the top; a short third run is merged before the
topmost. `rounds` bounds their number. -/
def collapse : (rounds patience : Nat) → List (List α) → Except ε (List α)
  | _, _, [] => .ok []
  | _, _, [run] => .ok run
  | 0, _, runs => .ok runs.reverse.flatten
  | rounds + 1, patience, top :: second :: third :: rest => do
    if third.length < top.length then
      let (merged, patience) ← mergeRuns lt patience third second
      collapse rounds patience (top :: merged :: rest)
    else
      let (merged, patience) ← mergeRuns lt patience second top
      collapse rounds patience (merged :: third :: rest)
  | _ + 1, patience, [top, second] => do
    let (merged, _) ← mergeRuns lt patience second top
    return merged

def sort (xs : List α) : Except ε (List α) := do
  let (patience, stack) ←
    stackRuns lt xs.length (leastRun xs.length xs.length 0) xs.length leastStretch 0 [] xs
  collapse lt stack.length patience (stack.map Pending.members)

end TexHtml.Sorting
