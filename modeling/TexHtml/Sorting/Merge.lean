import TexHtml.Sorting.Search

/-!
Merging two runs into one. Members are taken one by one until one run has won often enough in a row;
then stretches are taken, each found by galloping, as long as they are long enough to be worth it.
The patience is the number of wins in a row that it takes: it falls while galloping pays and rises
when it does not.
-/

namespace TexHtml.Sorting

def leastStretch : Nat := 7

def shorten (patience : Nat) : Nat := if 1 < patience then patience - 1 else patience

inductive Pace where
  | single (leftWins rightWins : Nat)
  | stretches

def paceAfter (patience leftWins rightWins : Nat) : Pace :=
  if patience ≤ max leftWins rightWins then .stretches else .single leftWins rightWins

variable {α ε : Type} (lt : α → α → Except ε Bool)

def mergeFromLeft : (rounds patience : Nat) → Pace → (out left right : List α) →
    Except ε (List α × Nat)
  | rounds + 1, patience, .single leftWins rightWins, out, x :: y :: left, z :: right => do
    if ← lt z x then
      mergeFromLeft rounds patience (paceAfter patience 0 (rightWins + 1)) (z :: out)
        (x :: y :: left) right
    else
      mergeFromLeft rounds patience (paceAfter patience (leftWins + 1) 0) (x :: out) (y :: left)
        (z :: right)
  | rounds + 1, patience, .stretches, out, x :: y :: left, z :: right => do
    let i ← gallopRight lt z (x :: y :: left) 0
    let out := ((x :: y :: left).take i).reverse ++ out
    match (x :: y :: left).drop i, right with
    | [], right => return (out.reverse ++ z :: right, patience)
    | [last], right => return (out.reverse ++ z :: right ++ [last], patience)
    | left, [] => return (out.reverse ++ z :: left, patience)
    | x :: y :: left, right =>
      let j ← gallopLeft lt x right 0
      let out := (right.take j).reverse ++ z :: out
      match left, right.drop j with
      | left, [] => return (out.reverse ++ x :: y :: left, patience)
      | [], right => return (out.reverse ++ x :: right ++ [y], patience)
      | left, right =>
        if leastStretch ≤ max i j then
          mergeFromLeft rounds (shorten patience) .stretches (x :: out) (y :: left) right
        else mergeFromLeft rounds (patience + 1) (.single 0 0) (x :: out) (y :: left) right
  | _, patience, _, out, [last], right => .ok (out.reverse ++ right ++ [last], patience)
  | _, patience, _, out, left, right => .ok (out.reverse ++ left ++ right, patience)

def mergeFromRight : (rounds patience : Nat) → Pace → (left right out : List α) →
    Except ε (List α × Nat)
  | 0, patience, _, left, right, out => .ok (left ++ right ++ out, patience)
  | rounds + 1, patience, pace, left, right, out =>
    match left.getLast?, right with
    | none, right => .ok (right ++ out, patience)
    | some _, [] => .ok (left ++ out, patience)
    | some _, [first] => .ok (first :: left ++ out, patience)
    | some x, y :: z :: right =>
      let last := (z :: right).getLastD z
      let before := y :: (z :: right).dropLast
      match pace with
      | .single leftWins rightWins => do
        if ← lt last x then
          mergeFromRight rounds patience (paceAfter patience (leftWins + 1) 0) left.dropLast
            (y :: z :: right) (x :: out)
        else
          mergeFromRight rounds patience (paceAfter patience 0 (rightWins + 1)) left before
            (last :: out)
      | .stretches => do
        let i ← gallopRight lt last left (left.length - 1)
        let out := last :: left.drop i ++ out
        match (left.take i).getLast?, before with
        | none, before => return (before ++ out, patience)
        | some _, [first] => return (first :: left.take i ++ out, patience)
        | some x, before =>
          let j ← gallopLeft lt x before (before.length - 1)
          let out := before.drop j ++ out
          match (left.take i).dropLast, before.take j with
          | _, [] => return (left.take i ++ out, patience)
          | _, [first] => return (first :: left.take i ++ out, patience)
          | [], right => return (right ++ x :: out, patience)
          | inner, right =>
            if leastStretch ≤ max (left.length - i) (before.length - j) then
              mergeFromRight rounds (shorten patience) .stretches inner right (x :: out)
            else mergeFromRight rounds (patience + 1) (.single 0 0) inner right (x :: out)

/-- Merges two runs. What stands in place already at either end is not looked at again. -/
def mergeRuns (patience : Nat) (left right : List α) : Except ε (List α × Nat) := do
  match right with
  | [] => return (left, patience)
  | first :: _ =>
    let i ← gallopRight lt first left 0
    match (left.drop i).getLast? with
    | none => return (left ++ right, patience)
    | some greatest =>
      let j ← gallopLeft lt greatest right (right.length - 1)
      match right.take j with
      | [] => return (left ++ right, patience)
      | z :: inner =>
        let (merged, patience) ←
          if (left.drop i).length ≤ j then
            mergeFromLeft lt (left.length + j) patience (.single 0 0) [z] (left.drop i) inner
          else
            mergeFromRight lt (left.length + j) patience (.single 0 0) (left.drop i).dropLast
              (z :: inner) [greatest]
        return (left.take i ++ merged ++ right.drop j, patience)

end TexHtml.Sorting
