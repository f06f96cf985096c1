import TexHtml.Settings.Environment
import TexHtml.Value.Basic

/-!
Placeholders in settings: a name in braces behind a dollar sign stands for the value of a variable,
and for itself if the variable is not set. What is put in is not looked at again.
-/

namespace TexHtml.Placeholder

def isNameStart (c : Char) : Bool :=
  ('a' ≤ c && c ≤ 'z') || ('A' ≤ c && c ≤ 'Z') || c = '_'

def isNamePart (c : Char) : Bool := isNameStart c || ('0' ≤ c && c ≤ '9') || c = '-'

def name? (s : List Char) : Option (List Char × List Char) :=
  match s with
  | [] => none
  | c :: rest =>
    if isNameStart c then
      match rest.dropWhile isNamePart with
      | '}' :: behind => some (c :: rest.takeWhile isNamePart, behind)
      | _ => none
    else none

def placeholder? (s : List Char) : Option (List Char × List Char) :=
  match s with
  | '$' :: '{' :: rest => name? rest
  | _ => none

theorem length_of_name? {s name behind : List Char} (h : name? s = some (name, behind)) :
    behind.length < s.length := by
  unfold name? at h
  split at h
  · simp at h
  · rename_i c rest
    split at h
    · split at h
      · rename_i behind' hd
        simp only [Option.some.injEq, Prod.mk.injEq] at h
        have hl : (rest.dropWhile isNamePart).length ≤ rest.length :=
          (List.dropWhile_sublist isNamePart).length_le
        rw [hd, List.length_cons] at hl
        rw [← h.2, List.length_cons]
        omega
      · simp at h
    · simp at h

theorem length_of_placeholder? {s name behind : List Char}
    (h : placeholder? s = some (name, behind)) : behind.length < s.length := by
  unfold placeholder? at h
  split at h
  · have := length_of_name? h
    simp only [List.length_cons]
    omega
  · simp at h

def written (name : List Char) : List Char := '$' :: '{' :: name ++ ['}']

def meaning (env : Environment) (name : List Char) : List Char :=
  match env.get? (String.ofList name) with
  | some value => value.toList
  | none => written name

def expand (env : Environment) (s : List Char) : List Char :=
  match s with
  | [] => []
  | c :: rest =>
    match _h : placeholder? (c :: rest) with
    | some (name, behind) =>
      meaning env name ++ expand env behind
    | none => c :: expand env rest
termination_by s.length
decreasing_by
  · exact length_of_placeholder? _h
  · exact Nat.lt_succ_self rest.length

mutual

def substitute (env : Environment) : Value → Value
  | .str s => .str (String.ofList (expand env s.toList))
  | .table entries => .table (substituteEntries env entries)
  | .list items => .list (substituteItems env items)
  | v => v

def substituteEntries (env : Environment) : List (Value × Value) → List (Value × Value)
  | [] => []
  | (k, v) :: rest => (k, substitute env v) :: substituteEntries env rest

def substituteItems (env : Environment) : List Value → List Value
  | [] => []
  | v :: rest => substitute env v :: substituteItems env rest

end

end TexHtml.Placeholder
