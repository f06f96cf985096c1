import TexHtml.Sorting.Search

namespace TexHtml.Sorting

variable {α ε : Type} (lt : α → α → Except ε Bool)

def extendRun (descending : Bool) (previous : α) : List α → Except ε (List α × List α)
  | [] => .ok ([], [])
  | x :: rest => do
    if (← lt x previous) = descending then
      let (run, rest) ← extendRun descending x rest
      return (x :: run, rest)
    else return ([], x :: rest)

def leadingRun : List α → Except ε (List α × List α)
  | [] => .ok ([], [])
  | [x] => .ok ([x], [])
  | x :: y :: rest => do
    let descending ← lt y x
    let (run, rest) ← extendRun lt descending y rest
    return (if descending then (x :: y :: run).reverse else x :: y :: run, rest)

def insert (sorted : List α) (x : α) : Except ε (List α) := do
  let i ← halve (testAt (fun y => (lt x y).map (!·)) sorted) (sorted.length + 1) 0 sorted.length
  return sorted.take i ++ x :: sorted.drop i

def insertAll (sorted : List α) (xs : List α) : Except ε (List α) := xs.foldlM (insert lt) sorted

def firstRun (least : Nat) (xs : List α) : Except ε (List α × List α) := do
  let (run, rest) ← leadingRun lt xs
  let missing := least - run.length
  return (← insertAll lt run (rest.take missing), rest.drop missing)

end TexHtml.Sorting
