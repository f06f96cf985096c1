import TexHtml.Document.Parse

/-!
Reading without a bound on nested calls. `fuel` is enough for every list of tokens, so that the
reading functions satisfy the equations of the descent itself.
-/

namespace TexHtml

theorem exists_ok_of_map_eq_ok {ε α β : Type} {r : Except ε α} {f : α → β} {b : β}
    (h : r.map f = .ok b) : ∃ a, r = .ok a ∧ f a = b := by
  cases r with
  | ok a => exact ⟨a, rfl, Except.ok.inj h⟩
  | error e => cases h

namespace Parsed

variable {α β : Type}

def rest : Parsed α → List Token
  | ok _ rest => rest
  | stopped stop => stop.rest

theorem andThen_rest_suffix {r : Parsed α} {f : α → List Token → Parsed β} {ts : List Token}
    (hr : r.rest <:+ ts) (hf : ∀ value us, (f value us).rest <:+ us) :
    (r.andThen f).rest <:+ ts := by
  cases r with
  | ok value us => exact (hf value us).trans hr
  | stopped stop => exact hr

theorem andThen_congr {r r' : Parsed α} {f f' : α → List Token → Parsed β} (hr : r = r')
    (hf : ∀ value us, r' = .ok value us → f value us = f' value us) :
    r.andThen f = r'.andThen f' := by
  subst hr
  cases r with
  | ok value us => exact hf value us rfl
  | stopped stop => rfl

theorem andThen_eq_ok {r : Parsed α} {f : α → List Token → Parsed β} {value : β} {us : List Token} :
    r.andThen f = .ok value us ↔ ∃ a vs, r = .ok a vs ∧ f a vs = .ok value us := by
  constructor
  · intro h
    cases r with
    | ok a vs => exact ⟨a, vs, rfl, h⟩
    | stopped stop => cases h
  · rintro ⟨a, vs, rfl, h⟩
    exact h

end Parsed

def beforeEnd (ts : List Token) : List Token := ts.takeWhile fun t => t.kind ≠ .endOfInput

@[simp] theorem beforeEnd_nil : beforeEnd [] = [] := rfl

theorem beforeEnd_end {t : Token} (ts : List Token) (h : t.kind = .endOfInput) :
    beforeEnd (t :: ts) = [] := by
  simp [beforeEnd, h]

theorem beforeEnd_cons {t : Token} (ts : List Token) (h : t.kind ≠ .endOfInput) :
    beforeEnd (t :: ts) = t :: beforeEnd ts := by
  simp [beforeEnd, h]

namespace Parse

structure LeavesSuffix (limit : Int) (n : Nat) : Prop where
  elements (inside : Option Delimiter) (depth : Int) (ts : List Token) :
    (Parse.elements limit n inside depth ts).rest <:+ ts
  element (depth : Int) (t : Token) (ts : List Token) :
    (Parse.element limit n depth t ts).rest <:+ ts
  command (depth : Int) (name : String) (ts : List Token) :
    (Parse.command limit n depth name ts).rest <:+ ts
  groups (d : Delimiter) (depth : Int) (ts : List Token) :
    (Parse.groups limit n d depth ts).rest <:+ ts
  group (d : Delimiter) (depth : Int) (opener : Token) (ts : List Token) :
    (Parse.group limit n d depth opener ts).rest <:+ ts

theorem leavesSuffix (limit : Int) (n : Nat) : LeavesSuffix limit n := by
  induction n with
  | zero =>
    constructor
    all_goals intros; exact List.suffix_rfl
  | succ n ih =>
    constructor
    · intro inside depth ts
      cases ts with
      | nil => exact List.suffix_rfl
      | cons t ts =>
        rw [Parse.elements]
        split
        · exact List.suffix_rfl
        · refine (Parsed.andThen_rest_suffix (ih.element depth t ts) ?_).trans (List.suffix_cons t ts)
          intro found us
          exact Parsed.andThen_rest_suffix (ih.elements inside depth us) fun _ _ => List.suffix_rfl
    · intro depth t ts
      rw [Parse.element.eq_def]
      dsimp only
      split
      · exact Parsed.andThen_rest_suffix (ih.command depth t.content ts) fun _ _ => List.suffix_rfl
      · exact Parsed.andThen_rest_suffix (ih.group _ depth t ts) fun _ _ => List.suffix_rfl
      · exact List.suffix_rfl
    · intro depth name ts
      rw [Parse.command]
      refine Parsed.andThen_rest_suffix (ih.groups .bracket depth ts) ?_
      intro optional us
      exact Parsed.andThen_rest_suffix (ih.groups .brace depth us) fun _ _ => List.suffix_rfl
    · intro d depth ts
      cases ts with
      | nil => exact List.suffix_rfl
      | cons t ts =>
        rw [Parse.groups]
        split
        · refine (Parsed.andThen_rest_suffix (ih.group d depth t ts) ?_).trans (List.suffix_cons t ts)
          intro first us
          exact Parsed.andThen_rest_suffix (ih.groups d depth us) fun _ _ => List.suffix_rfl
        · exact List.suffix_rfl
    · intro d depth opener ts
      rw [Parse.group]
      split
      · exact List.suffix_rfl
      · refine Parsed.andThen_rest_suffix (ih.elements (some d) (depth + 1) ts) ?_
        intro nodes us
        cases us with
        | nil => exact List.suffix_rfl
        | cons t us =>
          rw [endGroup]
          split
          · exact List.suffix_cons t us
          · exact List.suffix_rfl

theorem rest_length_le {α : Type} {r : Parsed α} {value : α} {ts us : List Token}
    (hr : r.rest <:+ ts) (h : r = .ok value us) : us.length ≤ ts.length := by
  subst h
  exact hr.length_le

/-- One more nested call changes nothing once the bound has passed what the tokens can need. -/
structure Stable (limit : Int) (n : Nat) : Prop where
  elements (inside : Option Delimiter) (depth : Int) (ts : List Token) (h : 4 * ts.length + 1 ≤ n) :
    Parse.elements limit (n + 1) inside depth ts = Parse.elements limit n inside depth ts
  element (depth : Int) (t : Token) (ts : List Token) (h : 4 * ts.length + 3 ≤ n) :
    Parse.element limit (n + 1) depth t ts = Parse.element limit n depth t ts
  command (depth : Int) (name : String) (ts : List Token) (h : 4 * ts.length + 2 ≤ n) :
    Parse.command limit (n + 1) depth name ts = Parse.command limit n depth name ts
  groups (d : Delimiter) (depth : Int) (ts : List Token) (h : 4 * ts.length + 1 ≤ n) :
    Parse.groups limit (n + 1) d depth ts = Parse.groups limit n d depth ts
  group (d : Delimiter) (depth : Int) (opener : Token) (ts : List Token)
    (h : 4 * ts.length + 2 ≤ n) :
    Parse.group limit (n + 1) d depth opener ts = Parse.group limit n d depth opener ts

theorem stable (limit : Int) (n : Nat) : Stable limit n := by
  induction n with
  | zero =>
    constructor
    all_goals intros; omega
  | succ n ih =>
    have hs := leavesSuffix limit n
    constructor
    · intro inside depth ts h
      cases ts with
      | nil => rfl
      | cons t ts =>
        rw [List.length_cons] at h
        rw [Parse.elements, Parse.elements]
        split
        · rfl
        · refine Parsed.andThen_congr (ih.element depth t ts (by omega)) ?_
          intro found us hu
          have hle := rest_length_le (hs.element depth t ts) hu
          rw [ih.elements inside depth us (by omega)]
    · intro depth t ts h
      rw [Parse.element.eq_def, Parse.element.eq_def limit (n + 1)]
      dsimp only
      split
      · rw [ih.command depth t.content ts (by omega)]
      · rw [ih.group _ depth t ts (by omega)]
      · rfl
    · intro depth name ts h
      rw [Parse.command, Parse.command]
      refine Parsed.andThen_congr (ih.groups .bracket depth ts (by omega)) ?_
      intro optional us hu
      have hle := rest_length_le (hs.groups .bracket depth ts) hu
      rw [ih.groups .brace depth us (by omega)]
    · intro d depth ts h
      cases ts with
      | nil => rfl
      | cons t ts =>
        rw [List.length_cons] at h
        rw [Parse.groups, Parse.groups]
        split
        · refine Parsed.andThen_congr (ih.group d depth t ts (by omega)) ?_
          intro first us hu
          have hle := rest_length_le (hs.group d depth t ts) hu
          rw [ih.groups d depth us (by omega)]
        · rfl
    · intro d depth opener ts h
      rw [Parse.group, Parse.group, ih.elements (some d) (depth + 1) ts (by omega)]

theorem eq_of_step_eq {α : Type} {f : Nat → α} {b n m : Nat} (hf : ∀ k, b ≤ k → f (k + 1) = f k)
    (hn : b ≤ n) (hm : b ≤ m) : f n = f m := by
  have base (k : Nat) (hk : b ≤ k) : f k = f b := by
    induction hk with
    | refl => rfl
    | step hk ih => rw [hf _ hk, ih]
  rw [base n hn, base m hm]

end Parse

theorem fuel_eq_succ (ts : List Token) : fuel ts = 4 * ts.length + 3 + 1 := by
  simp only [fuel]
  omega

theorem le_fuel (ts : List Token) {k : Nat} (hk : k ≤ 4) : 4 * ts.length + k ≤ fuel ts := by
  simp only [fuel]
  omega

namespace Reading

def elements (limit : Int) (inside : Option Delimiter) (depth : Int) (ts : List Token) :
    Parsed (List Node) := Parse.elements limit (fuel ts) inside depth ts

def element (limit depth : Int) (t : Token) (ts : List Token) : Parsed (Option Node) :=
  Parse.element limit (fuel ts) depth t ts

def command (limit depth : Int) (name : String) (ts : List Token) : Parsed Node :=
  Parse.command limit (fuel ts) depth name ts

def groups (limit : Int) (d : Delimiter) (depth : Int) (ts : List Token) :
    Parsed (List (List Node)) := Parse.groups limit (fuel ts) d depth ts

def group (limit : Int) (d : Delimiter) (depth : Int) (opener : Token) (ts : List Token) :
    Parsed (List Node) := Parse.group limit (fuel ts) d depth opener ts

variable (limit depth : Int) (inside : Option Delimiter) (d : Delimiter) (t : Token)
  (ts : List Token)

theorem elements_of_enough {n : Nat} (h : 4 * ts.length + 1 ≤ n) :
    Parse.elements limit n inside depth ts = elements limit inside depth ts :=
  Parse.eq_of_step_eq (f := fun k => Parse.elements limit k inside depth ts)
    (fun k hk => (Parse.stable limit k).elements inside depth ts hk) h (le_fuel ts (by decide))

theorem element_of_enough {n : Nat} (h : 4 * ts.length + 3 ≤ n) :
    Parse.element limit n depth t ts = element limit depth t ts :=
  Parse.eq_of_step_eq (f := fun k => Parse.element limit k depth t ts)
    (fun k hk => (Parse.stable limit k).element depth t ts hk) h (le_fuel ts (by decide))

theorem command_of_enough (name : String) {n : Nat} (h : 4 * ts.length + 2 ≤ n) :
    Parse.command limit n depth name ts = command limit depth name ts :=
  Parse.eq_of_step_eq (f := fun k => Parse.command limit k depth name ts)
    (fun k hk => (Parse.stable limit k).command depth name ts hk) h (le_fuel ts (by decide))

theorem groups_of_enough {n : Nat} (h : 4 * ts.length + 1 ≤ n) :
    Parse.groups limit n d depth ts = groups limit d depth ts :=
  Parse.eq_of_step_eq (f := fun k => Parse.groups limit k d depth ts)
    (fun k hk => (Parse.stable limit k).groups d depth ts hk) h (le_fuel ts (by decide))

theorem group_of_enough {n : Nat} (h : 4 * ts.length + 2 ≤ n) :
    Parse.group limit n d depth t ts = group limit d depth t ts :=
  Parse.eq_of_step_eq (f := fun k => Parse.group limit k d depth t ts)
    (fun k hk => (Parse.stable limit k).group d depth t ts hk) h (le_fuel ts (by decide))

theorem element_rest_suffix : (element limit depth t ts).rest <:+ ts :=
  (Parse.leavesSuffix limit _).element depth t ts

theorem groups_rest_suffix : (groups limit d depth ts).rest <:+ ts :=
  (Parse.leavesSuffix limit _).groups d depth ts

theorem group_rest_suffix : (group limit d depth t ts).rest <:+ ts :=
  (Parse.leavesSuffix limit _).group d depth t ts

theorem elements_stop (h : t.kind = .endOfInput ∨ t.kind.closes inside) :
    elements limit inside depth (t :: ts) = .ok [] (t :: ts) := by
  rw [elements, fuel_eq_succ, Parse.elements, if_pos (by simpa using h)]

theorem elements_cons (he : t.kind ≠ .endOfInput) (hc : t.kind.closes inside = false) :
    elements limit inside depth (t :: ts) =
      (element limit depth t ts).andThen fun found us =>
        (elements limit inside depth us).andThen fun nodes us => .ok (found.toList ++ nodes) us := by
  rw [elements, fuel_eq_succ, List.length_cons, Parse.elements, if_neg (by simp [he, hc])]
  refine Parsed.andThen_congr (element_of_enough limit depth t ts (by omega)) ?_
  intro found us hu
  have hle := Parse.rest_length_le (element_rest_suffix limit depth t ts) hu
  rw [elements_of_enough limit depth inside us (by omega)]

theorem element_command (h : t.kind = .command) :
    element limit depth t ts =
      (command limit depth t.content ts).andThen fun node us => .ok (some node) us := by
  rw [element, fuel_eq_succ, Parse.element, h]
  dsimp only
  rw [command_of_enough limit depth ts t.content (by omega)]

theorem element_opener (h : t.kind = .opener d) :
    element limit depth t ts =
      (group limit d depth t ts).andThen fun nodes us => .ok (some (.group nodes)) us := by
  rw [element, fuel_eq_succ, Parse.element, h]
  dsimp only
  rw [group_of_enough limit depth d t ts (by omega)]

theorem element_leaf (hc : t.kind ≠ .command) (ho : ∀ d, t.kind ≠ .opener d) :
    element limit depth t ts = .ok t.leaf? ts := by
  rw [element, fuel_eq_succ, Parse.element.eq_def]
  dsimp only
  split
  · contradiction
  · exact absurd ‹_› (ho _)
  · rfl

theorem command_eq (name : String) :
    command limit depth name ts =
      (groups limit .bracket depth ts).andThen fun optional us =>
        (groups limit .brace depth us).andThen fun required us =>
          .ok (.command name (required.map packArgument) optional.flatten) us := by
  rw [command, fuel_eq_succ, Parse.command]
  refine Parsed.andThen_congr (groups_of_enough limit depth .bracket ts (by omega)) ?_
  intro optional us hu
  have hle := Parse.rest_length_le (groups_rest_suffix limit depth .bracket ts) hu
  rw [groups_of_enough limit depth .brace us (by omega)]

theorem groups_stop (h : t.kind ≠ .opener d) :
    groups limit d depth (t :: ts) = .ok [] (t :: ts) := by
  rw [groups, fuel_eq_succ, Parse.groups, if_neg h]

theorem groups_cons (h : t.kind = .opener d) :
    groups limit d depth (t :: ts) =
      (group limit d depth t ts).andThen fun first us =>
        (groups limit d depth us).andThen fun others us => .ok (first :: others) us := by
  rw [groups, fuel_eq_succ, List.length_cons, Parse.groups, if_pos h]
  refine Parsed.andThen_congr (group_of_enough limit depth d t ts (by omega)) ?_
  intro first us hu
  have hle := Parse.rest_length_le (group_rest_suffix limit depth d t ts) hu
  rw [groups_of_enough limit depth d us (by omega)]

theorem group_tooDeep (h : limit ≤ depth) :
    group limit d depth t ts = .stopped ⟨.tooDeep limit d t, ts, depth⟩ := by
  rw [group, fuel_eq_succ, Parse.group, if_pos h]

theorem group_eq (h : depth < limit) :
    group limit d depth t ts =
      (elements limit (some d) (depth + 1) ts).andThen (Parse.endGroup d depth t) := by
  rw [group, fuel_eq_succ, Parse.group, if_neg (by omega),
    elements_of_enough limit (depth + 1) (some d) ts (by omega)]

def Ends (inside : Option Delimiter) : List Token → Prop
  | [] => True
  | t :: _ => t.kind = .endOfInput ∨ t.kind.closes inside

theorem length_induction {motive : List Token → Prop}
    (step : ∀ ts, (∀ us, us.length < ts.length → motive us) → motive ts) (ts : List Token) :
    motive ts := (measure List.length).wf.induction ts step

theorem elements_ends {limit depth : Int} {inside : Option Delimiter} {ts us : List Token}
    {nodes : List Node} (h : elements limit inside depth ts = .ok nodes us) : Ends inside us := by
  induction ts using length_induction generalizing nodes with
  | step ts ih =>
    cases ts with
    | nil =>
      cases h
      exact trivial
    | cons t ts =>
      by_cases hs : t.kind = .endOfInput ∨ t.kind.closes inside
      · rw [elements_stop _ _ _ _ _ hs] at h
        cases h
        exact hs
      · simp only [not_or, Bool.not_eq_true] at hs
        rw [elements_cons _ _ _ _ _ hs.1 hs.2] at h
        obtain ⟨found, vs, he, h⟩ := Parsed.andThen_eq_ok.mp h
        obtain ⟨nodes', us', hn, h⟩ := Parsed.andThen_eq_ok.mp h
        cases h
        have hle := Parse.rest_length_le (element_rest_suffix limit depth t ts) he
        exact ih vs (by simpa using Nat.lt_succ_of_le hle) hn

end Reading

theorem parseAll_eq (ts : List Token) (limit : Int) :
    parseAll ts limit = Reading.elements limit none 0 ts := rfl

end TexHtml
