import TexHtml.Proofs.Stepwise

namespace TexHtml

namespace StackScan

abbrev Stack := List (Delimiter × Token)

def innermost (stack : Stack) : Option Delimiter := stack.head?.map Prod.fst

def closingMark : Delimiter → String
  | .brace => "\x7d"
  | .bracket => "]"

theorem closingMark_eq (d : Delimiter) : closingMark d = d.closing := by
  cases d <;> rfl

/-- A closing delimiter that does not close the innermost open one is ignored. -/
def step (limit : Int) (stack : Stack) (t : Token) : Except ParseError Stack :=
  match t.kind with
  | .opener d =>
    if limit ≤ stack.length then
      .error ⟨s!"Nesting deeper than {limit} levels", closingMark d, t.location⟩
    else .ok ((d, t) :: stack)
  | .closer d => .ok (if innermost stack = some d then stack.tail else stack)
  | _ => .ok stack

def finish : Stack → Except ParseError Unit
  | [] => .ok ()
  | (d, t) :: _ => .error ⟨"Expected '" ++ closingMark d ++ "'", closingMark d, t.location⟩

def scan (limit : Int) : Stack → List Token → Except ParseError Unit
  | stack, [] => finish stack
  | stack, t :: ts => (step limit stack t).bind fun stack => scan limit stack ts

variable {limit : Int} {stack : Stack} {d : Delimiter} {t : Token}

theorem scan_unclosed : scan limit ((d, t) :: stack) [] = .error (.unclosed d t) := by
  simp only [scan, finish, closingMark_eq]
  rfl

theorem scan_tooDeep (ts : List Token) (ht : t.kind = .opener d) (h : limit ≤ stack.length) :
    scan limit stack (t :: ts) = .error (.tooDeep limit d t) := by
  simp only [scan, step, ht, if_pos h, closingMark_eq]
  rfl

theorem scan_push (ts : List Token) (ht : t.kind = .opener d) (h : ¬ limit ≤ stack.length) :
    scan limit stack (t :: ts) = scan limit ((d, t) :: stack) ts := by
  simp only [scan, step, ht, if_neg h]
  rfl

theorem scan_pop {o : Token} (ts : List Token) (ht : t.kind = .closer d) :
    scan limit ((d, o) :: stack) (t :: ts) = scan limit stack ts := by
  simp only [scan, step, ht, innermost, List.head?_cons, Option.map_some, if_pos, List.tail_cons]
  rfl

theorem scan_skip (ts : List Token) (ho : ∀ d, t.kind ≠ .opener d)
    (hc : t.kind.closes (innermost stack) = false) :
    scan limit stack (t :: ts) = scan limit stack ts := by
  have hs : step limit stack t = .ok stack := by
    cases hk : t.kind with
    | opener d => exact absurd hk (ho d)
    | closer d =>
      have hd : innermost stack ≠ some d := by
        intro h
        simp [h, hk, TokenKind.closes] at hc
      simp only [step, hk, if_neg hd]
    | command | text | newline | math _ | endOfInput => simp only [step, hk]
  rw [scan, hs]
  rfl

end StackScan

namespace Parsed

variable {α β : Type}

def resume (r : Parsed α) (k : List Token → Except ParseError Unit) : Except ParseError Unit :=
  match r with
  | ok _ us => k us
  | stopped stop => .error stop.error

theorem andThen_resume {r : Parsed α} {f : α → List Token → Parsed β}
    {k k' : List Token → Except ParseError Unit}
    (h : ∀ value us, r = .ok value us → (f value us).resume k = k' us) :
    (r.andThen f).resume k = r.resume k' := by
  cases r with
  | ok value us => exact h value us rfl
  | stopped stop => rfl

end Parsed

namespace StackScan

structure Simulates (limit : Int) (ts : List Token) : Prop where
  elements (stack : Stack) :
    (Reading.elements limit (innermost stack) stack.length ts).resume
      (fun us => scan limit stack (beforeEnd us)) = scan limit stack (beforeEnd ts)
  group (stack : Stack) {d : Delimiter} {t : Token} (ht : t.kind = .opener d) :
    (Reading.group limit d stack.length t ts).resume (fun us => scan limit stack (beforeEnd us)) =
      scan limit stack (t :: beforeEnd ts)
  groups (stack : Stack) (d : Delimiter) :
    (Reading.groups limit d stack.length ts).resume (fun us => scan limit stack (beforeEnd us)) =
      scan limit stack (beforeEnd ts)

variable {limit : Int} {ts : List Token}

theorem command_simulates (ih : ∀ us, us.length ≤ ts.length → Simulates limit us)
    (stack : Stack) (name : String) :
    (Reading.command limit stack.length name ts).resume (fun us => scan limit stack (beforeEnd us)) =
      scan limit stack (beforeEnd ts) := by
  rw [Reading.command_eq, ← (ih ts (Nat.le_refl _)).groups stack .bracket]
  apply Parsed.andThen_resume
  intro optional us hu
  have hle := Parse.rest_length_le (Reading.groups_rest_suffix limit stack.length .bracket ts) hu
  rw [← (ih us hle).groups stack .brace]
  exact Parsed.andThen_resume fun _ _ _ => rfl

theorem element_simulates (ih : ∀ us, us.length ≤ ts.length → Simulates limit us)
    (stack : Stack) {t : Token} (hc : t.kind.closes (innermost stack) = false) :
    (Reading.element limit stack.length t ts).resume (fun us => scan limit stack (beforeEnd us)) =
      scan limit stack (t :: beforeEnd ts) := by
  by_cases hcmd : t.kind = .command
  · rw [Reading.element_command _ _ _ _ hcmd, scan_skip _ (by simp [hcmd]) hc,
      ← command_simulates ih stack t.content]
    exact Parsed.andThen_resume fun _ _ _ => rfl
  · by_cases hop : ∃ d, t.kind = .opener d
    · obtain ⟨d, hd⟩ := hop
      rw [Reading.element_opener _ _ _ _ _ hd, ← (ih ts (Nat.le_refl _)).group stack hd]
      exact Parsed.andThen_resume fun _ _ _ => rfl
    · simp only [not_exists] at hop
      rw [Reading.element_leaf _ _ _ _ hcmd hop, scan_skip _ hop hc]
      rfl

theorem elements_simulates (ih : ∀ us, us.length < ts.length → Simulates limit us) (stack : Stack) :
    (Reading.elements limit (innermost stack) stack.length ts).resume
      (fun us => scan limit stack (beforeEnd us)) = scan limit stack (beforeEnd ts) := by
  cases ts with
  | nil => rfl
  | cons t ts =>
    by_cases hs : t.kind = .endOfInput ∨ t.kind.closes (innermost stack)
    · rw [Reading.elements_stop _ _ _ _ _ hs]
      rfl
    · simp only [not_or, Bool.not_eq_true] at hs
      have ih' : ∀ us : List Token, us.length ≤ ts.length → Simulates limit us :=
        fun us hu => ih us (Nat.lt_succ_of_le hu)
      rw [Reading.elements_cons _ _ _ _ _ hs.1 hs.2, beforeEnd_cons ts hs.1,
        ← element_simulates ih' stack hs.2]
      apply Parsed.andThen_resume
      intro found us hu
      have hle := Parse.rest_length_le (Reading.element_rest_suffix limit stack.length t ts) hu
      rw [← (ih' us hle).elements stack]
      exact Parsed.andThen_resume fun _ _ _ => rfl

theorem endGroup_simulates (stack : Stack) {d : Delimiter} {t : Token} (nodes : List Node)
    {us : List Token} (hu : Reading.Ends (some d) us) :
    (Parse.endGroup d stack.length t nodes us).resume (fun vs => scan limit stack (beforeEnd vs)) =
      scan limit ((d, t) :: stack) (beforeEnd us) := by
  cases us with
  | nil =>
    rw [beforeEnd_nil, scan_unclosed]
    rfl
  | cons u us =>
    rw [Parse.endGroup]
    rcases hu with he | hc
    · rw [if_neg (by simp [he]), beforeEnd_end us he, scan_unclosed]
      rfl
    · have hk : u.kind = .closer d := by simpa [TokenKind.closes] using hc
      rw [if_pos hk, beforeEnd_cons us (by simp [hk]), scan_pop _ hk]
      rfl

theorem group_simulates
    (he : ∀ stack : Stack, (Reading.elements limit (innermost stack) stack.length ts).resume
      (fun us => scan limit stack (beforeEnd us)) = scan limit stack (beforeEnd ts))
    (stack : Stack) {d : Delimiter} {t : Token} (ht : t.kind = .opener d) :
    (Reading.group limit d stack.length t ts).resume (fun us => scan limit stack (beforeEnd us)) =
      scan limit stack (t :: beforeEnd ts) := by
  by_cases hl : limit ≤ stack.length
  · rw [Reading.group_tooDeep _ _ _ _ _ hl, scan_tooDeep _ ht hl]
    rfl
  · rw [Reading.group_eq _ _ _ _ _ (by omega), scan_push _ ht hl, ← he ((d, t) :: stack)]
    apply Parsed.andThen_resume
    intro nodes us hu
    exact endGroup_simulates stack nodes (Reading.elements_ends hu)

theorem groups_simulates (ih : ∀ us, us.length < ts.length → Simulates limit us) (stack : Stack)
    (d : Delimiter) :
    (Reading.groups limit d stack.length ts).resume (fun us => scan limit stack (beforeEnd us)) =
      scan limit stack (beforeEnd ts) := by
  cases ts with
  | nil => rfl
  | cons t ts =>
    by_cases hd : t.kind = .opener d
    · rw [Reading.groups_cons _ _ _ _ _ hd, beforeEnd_cons ts (by simp [hd]),
        ← (ih ts (Nat.lt_succ_self _)).group stack hd]
      apply Parsed.andThen_resume
      intro first us hu
      have hle := Parse.rest_length_le (Reading.group_rest_suffix limit stack.length d t ts) hu
      rw [← (ih us (Nat.lt_succ_of_le hle)).groups stack d]
      exact Parsed.andThen_resume fun _ _ _ => rfl
    · rw [Reading.groups_stop _ _ _ _ _ hd]
      rfl

theorem simulates (limit : Int) (ts : List Token) : Simulates limit ts := by
  induction ts using Reading.length_induction with
  | step ts ih =>
    have he := elements_simulates ih
    exact ⟨he, group_simulates he, groups_simulates ih⟩

/-- A parser answers every list of tokens under every limit, and its answer is that of the scan: a
document where the scan ends with nothing open, and otherwise the error of the scan. -/
theorem parse_outcome_eq_scan (ts : List Token) (limit : Int) :
    (Parser.start ts limit).parse.1 = .ok (parse ts limit) ∧
      (parse ts limit).map (fun _ => ()) = scan limit [] (beforeEnd ts) := by
  refine ⟨Parser.parse_start ts limit, ?_⟩
  have h := (simulates limit ts).elements []
  change (parseAll ts limit).resume _ = _ at h
  rw [← h, parse]
  cases hp : parseAll ts limit with
  | stopped stop => rfl
  | ok nodes us =>
    have hu : beforeEnd us = [] := by
      cases us with
      | nil => rfl
      | cons u us =>
        rcases Reading.elements_ends hp with he | hc
        · exact beforeEnd_end us he
        · simp [TokenKind.closes] at hc
    rw [Parsed.resume, hu]
    rfl

end StackScan

end TexHtml
