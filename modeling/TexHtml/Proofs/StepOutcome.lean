import TexHtml.Proofs.StackScan
import TexHtml.Token.Scan

namespace TexHtml

namespace StackScan

def track (stack : Stack) (t : Token) : Stack :=
  match t.kind with
  | .opener d => (d, t) :: stack
  | .closer d => if innermost stack = some d then stack.tail else stack
  | _ => stack

def trackAll (stack : Stack) (ts : List Token) : Stack := ts.foldl track stack

variable {stack : Stack} {d : Delimiter} {t : Token}

theorem trackAll_append (ts us : List Token) :
    trackAll stack (ts ++ us) = trackAll (trackAll stack ts) us := List.foldl_append

theorem trackAll_opener (ts : List Token) (ht : t.kind = .opener d) :
    trackAll stack (t :: ts) = trackAll ((d, t) :: stack) ts := by
  rw [trackAll, List.foldl_cons, track, ht]
  rfl

theorem trackAll_closer {o : Token} (ts : List Token) (ht : t.kind = .closer d) :
    trackAll ((d, o) :: stack) (t :: ts) = trackAll stack ts := by
  rw [trackAll, List.foldl_cons, track, ht]
  simp [innermost, trackAll]

theorem trackAll_skip (ts : List Token) (ho : ∀ d, t.kind ≠ .opener d)
    (hc : t.kind.closes (innermost stack) = false) :
    trackAll stack (t :: ts) = trackAll stack ts := by
  have ht : track stack t = stack := by
    rw [track]
    cases hk : t.kind with
    | opener d => exact absurd hk (ho d)
    | closer d =>
      have hd : innermost stack ≠ some d := by
        intro h
        simp [h, hk, TokenKind.closes] at hc
      simp only [if_neg hd]
    | command | text | newline | math _ | endOfInput => rfl
  rw [trackAll, List.foldl_cons, ht]
  rfl

inductive Breaks (limit depth : Int) (stack : Stack) (ts : List Token) : Stop → Prop
  | unclosed {d : Delimiter} {t : Token} {outer : Stack} {read us : List Token} {count : Int}
      (split : ts = read ++ us) (ended : beforeEnd us = [])
      (still : trackAll stack read = (d, t) :: (outer ++ stack))
      (counted : count = depth + outer.length) :
      Breaks limit depth stack ts ⟨.unclosed d t, us, count⟩
  | tooDeep {d : Delimiter} {t : Token} {outer : Stack} {read us : List Token} {count : Int}
      (split : ts = read ++ t :: us) (opens : t.kind = .opener d)
      (still : trackAll stack read = outer ++ stack)
      (counted : count = depth + outer.length) (full : count = max depth limit) :
      Breaks limit depth stack ts ⟨.tooDeep limit d t, us, count⟩

namespace Breaks

variable {limit depth : Int} {ts : List Token} {stop : Stop}

theorem behind {read : List Token} (hr : trackAll stack read = stack)
    (h : Breaks limit depth stack ts stop) : Breaks limit depth stack (read ++ ts) stop := by
  have hmore (more : List Token) : trackAll stack (read ++ more) = trackAll stack more := by
    rw [trackAll_append, hr]
  cases h with
  | unclosed split ended still counted =>
    refine .unclosed ?_ ended ((hmore _).trans still) counted
    rw [split, List.append_assoc]
  | tooDeep split opens still counted full =>
    refine .tooDeep ?_ opens ((hmore _).trans still) counted full
    rw [split, List.append_assoc]

theorem enclosed (ht : t.kind = .opener d) (hl : depth < limit)
    (h : Breaks limit (depth + 1) ((d, t) :: stack) ts stop) :
    Breaks limit depth stack (t :: ts) stop := by
  have hmore (read : List Token) : trackAll stack (t :: read) = trackAll ((d, t) :: stack) read :=
    trackAll_opener read ht
  have hone (outer : Stack) : ((outer ++ [(d, t)]).length : Int) = outer.length + 1 := by
    rw [List.length_append]
    rfl
  cases h with
  | @unclosed _ _ outer read us count split ended still counted =>
    refine .unclosed (List.cons_append.symm ▸ congrArg (t :: ·) split) ended ?_
      (by rw [counted, hone outer]; omega)
    rw [hmore, still, List.append_assoc]
    rfl
  | @tooDeep _ _ outer read us count split opens still counted full =>
    refine .tooDeep (List.cons_append.symm ▸ congrArg (t :: ·) split) opens ?_
      (by rw [counted, hone outer]; omega) (by omega)
    rw [hmore, still, List.append_assoc]
    rfl

end Breaks

def Leaves {α : Type} (limit depth : Int) (stack : Stack) (ts : List Token) : Parsed α → Prop
  | .ok _ us => ∃ read, ts = read ++ us ∧ trackAll stack read = stack
  | .stopped stop => Breaks limit depth stack ts stop

variable {limit depth : Int} {ts : List Token} {α β : Type}

theorem leaves_all (value : α) : Leaves limit depth stack ts (.ok value ts) := ⟨[], rfl, rfl⟩

theorem Leaves.andThen {r : Parsed α} {f : α → List Token → Parsed β}
    (hr : Leaves limit depth stack ts r)
    (hf : ∀ value us, r = .ok value us → Leaves limit depth stack us (f value us)) :
    Leaves limit depth stack ts (r.andThen f) := by
  cases r with
  | stopped stop => exact hr
  | ok value us =>
    obtain ⟨read, rfl, hread⟩ := hr
    have h := hf value us rfl
    rw [Parsed.ok_andThen]
    cases hfv : f value us with
    | stopped stop =>
      rw [hfv] at h
      exact h.behind hread
    | ok value' vs =>
      rw [hfv] at h
      obtain ⟨read', rfl, hread'⟩ := h
      refine ⟨read ++ read', (List.append_assoc _ _ _).symm, ?_⟩
      rw [trackAll_append, hread, hread']

theorem Leaves.skip {r : Parsed α} (ho : ∀ d, t.kind ≠ .opener d)
    (hc : t.kind.closes (innermost stack) = false) (h : Leaves limit depth stack ts r) :
    Leaves limit depth stack (t :: ts) r := by
  have ht : trackAll stack [t] = stack := trackAll_skip [] ho hc
  cases r with
  | stopped stop => exact Breaks.behind ht h
  | ok value us =>
    obtain ⟨read, rfl, hread⟩ := h
    refine ⟨t :: read, rfl, ?_⟩
    rw [trackAll_skip read ho hc, hread]

structure Settles (limit : Int) (ts : List Token) : Prop where
  elements (depth : Int) (stack : Stack) :
    Leaves limit depth stack ts (Reading.elements limit (innermost stack) depth ts)
  group (depth : Int) (stack : Stack) {d : Delimiter} {t : Token} (ht : t.kind = .opener d) :
    Leaves limit depth stack (t :: ts) (Reading.group limit d depth t ts)
  groups (depth : Int) (stack : Stack) (d : Delimiter) :
    Leaves limit depth stack ts (Reading.groups limit d depth ts)

theorem command_leaves (ih : ∀ us, us.length ≤ ts.length → Settles limit us) (name : String) :
    Leaves limit depth stack ts (Reading.command limit depth name ts) := by
  rw [Reading.command_eq]
  apply ((ih ts (Nat.le_refl _)).groups depth stack .bracket).andThen
  intro optional us hu
  have hle := Parse.rest_length_le (Reading.groups_rest_suffix limit depth .bracket ts) hu
  apply ((ih us hle).groups depth stack .brace).andThen
  intro required vs _
  exact leaves_all _

theorem element_leaves (ih : ∀ us, us.length ≤ ts.length → Settles limit us)
    (hc : t.kind.closes (innermost stack) = false) :
    Leaves limit depth stack (t :: ts) (Reading.element limit depth t ts) := by
  by_cases hcmd : t.kind = .command
  · rw [Reading.element_command _ _ _ _ hcmd]
    apply Leaves.andThen
    · exact (command_leaves ih t.content).skip (by simp [hcmd]) hc
    · intro node us _
      exact leaves_all _
  · by_cases hop : ∃ d, t.kind = .opener d
    · obtain ⟨d, hd⟩ := hop
      rw [Reading.element_opener _ _ _ _ _ hd]
      apply ((ih ts (Nat.le_refl _)).group depth stack hd).andThen
      intro nodes us _
      exact leaves_all _
    · simp only [not_exists] at hop
      rw [Reading.element_leaf _ _ _ _ hcmd hop]
      exact (leaves_all _).skip hop hc

theorem elements_leaves (ih : ∀ us, us.length < ts.length → Settles limit us) :
    Leaves limit depth stack ts (Reading.elements limit (innermost stack) depth ts) := by
  cases ts with
  | nil => exact leaves_all _
  | cons t ts =>
    by_cases hs : t.kind = .endOfInput ∨ t.kind.closes (innermost stack)
    · rw [Reading.elements_stop _ _ _ _ _ hs]
      exact leaves_all _
    · simp only [not_or, Bool.not_eq_true] at hs
      have ih' (us : List Token) (hu : us.length ≤ ts.length) : Settles limit us :=
        ih us (Nat.lt_succ_of_le hu)
      rw [Reading.elements_cons _ _ _ _ _ hs.1 hs.2]
      apply (element_leaves ih' hs.2).andThen
      intro found us hu
      have hle := Parse.rest_length_le (Reading.element_rest_suffix limit depth t ts) hu
      apply ((ih' us hle).elements depth stack).andThen
      intro nodes vs _
      exact leaves_all _

theorem group_leaves
    (he : ∀ (depth : Int) (stack : Stack),
      Leaves limit depth stack ts (Reading.elements limit (innermost stack) depth ts))
    (ht : t.kind = .opener d) :
    Leaves limit depth stack (t :: ts) (Reading.group limit d depth t ts) := by
  by_cases hl : limit ≤ depth
  · rw [Reading.group_tooDeep _ _ _ _ _ hl]
    exact .tooDeep (List.nil_append _).symm ht (List.nil_append stack).symm (by simp) (by omega)
  · rw [Reading.group_eq _ _ _ _ _ (by omega)]
    have h := he (depth + 1) ((d, t) :: stack)
    change Leaves limit (depth + 1) _ ts (Reading.elements limit (some d) (depth + 1) ts) at h
    cases hr : Reading.elements limit (some d) (depth + 1) ts with
    | stopped stop =>
      rw [hr] at h
      exact h.enclosed ht (by omega)
    | ok nodes us =>
      rw [hr] at h
      obtain ⟨read, rfl, hread⟩ := h
      have hopen : trackAll stack (t :: read) = (d, t) :: ([] ++ stack) :=
        (trackAll_opener read ht).trans hread
      have hstop (ended : beforeEnd us = []) :
          Breaks limit depth stack (t :: (read ++ us)) ⟨.unclosed d t, us, depth⟩ :=
        .unclosed List.cons_append.symm ended hopen (by simp)
      rw [Parsed.ok_andThen]
      cases us with
      | nil => exact hstop rfl
      | cons u us =>
        rw [Parse.endGroup]
        rcases Reading.elements_ends hr with hend | hclose
        · rw [if_neg (by simp [hend])]
          exact hstop (beforeEnd_end us hend)
        · have hu : u.kind = .closer d := by simpa [TokenKind.closes] using hclose
          rw [if_pos hu]
          refine ⟨t :: (read ++ [u]), by simp, ?_⟩
          rw [← List.cons_append, trackAll_append, hopen, trackAll_closer [] hu]
          rfl

theorem groups_leaves (ih : ∀ us, us.length < ts.length → Settles limit us) (d : Delimiter) :
    Leaves limit depth stack ts (Reading.groups limit d depth ts) := by
  cases ts with
  | nil => exact leaves_all _
  | cons t ts =>
    by_cases hd : t.kind = .opener d
    · rw [Reading.groups_cons _ _ _ _ _ hd]
      apply ((ih ts (Nat.lt_succ_self _)).group depth stack hd).andThen
      intro first us hu
      have hle := Parse.rest_length_le (Reading.group_rest_suffix limit depth d t ts) hu
      apply ((ih us (Nat.lt_succ_of_le hle)).groups depth stack d).andThen
      intro others vs _
      exact leaves_all _
    · rw [Reading.groups_stop _ _ _ _ _ hd]
      exact leaves_all _

theorem settles (limit : Int) (ts : List Token) : Settles limit ts := by
  induction ts using Reading.length_induction with
  | step ts ih =>
    have he (depth : Int) (stack : Stack) :
        Leaves limit depth stack ts (Reading.elements limit (innermost stack) depth ts) :=
      elements_leaves ih
    exact ⟨he, fun _ _ => group_leaves he, fun _ _ => groups_leaves ih⟩

end StackScan

namespace Parser

open StackScan

def openUpTo (p : Parser) (q : Nat) : Stack := trackAll [] (p.tokens.extract p.pos q)

theorem exists_rest_of_not_atEnd {p : Parser} (h : p.atEnd = false) :
    ∃ t ts, p.rest = t :: ts ∧ t.kind ≠ .endOfInput := by
  rw [atEnd] at h
  split at h
  · cases h
  · rename_i t ts hr
    exact ⟨t, ts, hr, by simpa using h⟩

theorem element_eq_settle {p : Parser} {t : Token} {ts : List Token} (hr : p.rest = t :: ts)
    (ht : t.kind ≠ .endOfInput) : p.element = p.settle (Reading.element p.limit p.depth t ts) := by
  have hlength := congrArg List.length hr
  rw [rest, List.length_drop, List.length_cons] at hlength
  rw [element, (Drive.agrees _).element p (by omega) (p.current_cons hr), p.behind_cons hr ht,
    Reading.element_of_enough]
  rw [fuel]
  omega

theorem extract_eq_read {p : Parser} {read us : List Token} (hr : p.rest = read ++ us) :
    p.tokens.extract p.pos (p.goTo us).pos = read := by
  have hlength := congrArg List.length hr
  rw [rest, List.length_drop, List.length_append] at hlength
  have hread : p.tokens.length - us.length - p.pos = read.length := by omega
  rw [List.extract_eq_take_drop, goTo]
  change (p.rest).take (p.tokens.length - us.length - p.pos) = read
  rw [hread, hr, List.take_left]

theorem atEnd_goTo (p : Parser) {us : List Token} (hu : us <:+ p.tokens) (hover : beforeEnd us = []) :
    (p.goTo us).atEnd = true := by
  rw [atEnd, p.rest_goTo hu]
  cases us with
  | nil => rfl
  | cons u us =>
    by_cases hend : u.kind = .endOfInput
    · exact decide_eq_true hend
    · rw [beforeEnd_cons us hend] at hover
      cases hover

/-- The three ways in which a step can end. It succeeds, further on and with as many groups counted
as before; or the input ends inside `u` groups that it has opened, of which the innermost no longer
counts; or it stands behind an opener that would be inside too many groups. -/
inductive Outcome (p : Parser) : Stepped (Option Node) → Prop
  | read {found : Option Node} {q : Nat} (further : p.pos < q) (within : q ≤ p.tokens.length)
      (closed : p.openUpTo q = []) : Outcome p (.ok found, { p with pos := q })
  | unclosed {d : Delimiter} {t : Token} {u q : Nat}
      (ended : ({ p with pos := q } : Parser).atEnd = true) (opened : 1 ≤ u)
      (still : (p.openUpTo q).length = u) (innermost : (p.openUpTo q).head? = some (d, t)) :
      Outcome p (.error (.parse (.unclosed d t)), { p with pos := q, depth := p.depth + u - 1 })
  | tooDeep {d : Delimiter} {t : Token} {q : Nat} (reached : p.pos ≤ q)
      (stands : p.tokens[q]? = some t) (opens : t.kind = .opener d)
      (full : p.depth + (p.openUpTo q).length = max p.depth p.limit) :
      Outcome p (.error (.parse (.tooDeep p.limit d t)),
        { p with pos := q + 1, depth := max p.depth p.limit })

theorem outcome_of_leaves {p : Parser} {r : Parsed (Option Node)}
    (h : Leaves p.limit p.depth [] p.rest r) (hshort : r.rest.length < p.rest.length) :
    p.Outcome (p.settle r) := by
  cases r with
  | ok found us =>
    obtain ⟨read, hread, hopen⟩ := h
    rw [Parsed.rest, rest, List.length_drop] at hshort
    refine .read (by omega) (Nat.sub_le _ _) ?_
    exact (congrArg _ (extract_eq_read hread)).trans hopen
  | stopped stop =>
    cases h with
    | @unclosed d o outer read us count hread ended still counted =>
      have hopen : p.openUpTo (p.goTo us).pos = (d, o) :: outer := by
        rw [openUpTo, extract_eq_read hread, still, List.append_nil]
      have hcount : count = p.depth + (outer.length + 1 : Nat) - 1 := by omega
      have hu : us <:+ p.tokens := (List.suffix_append read us).trans (hread ▸ p.rest_suffix)
      rw [settle, hcount]
      exact .unclosed (p.atEnd_goTo hu ended) (by omega) (congrArg List.length hopen)
        (congrArg List.head? hopen)
    | @tooDeep d o outer read us count hread opens still counted full =>
      have hlength := congrArg List.length hread
      rw [rest, List.length_drop, List.length_append, List.length_cons] at hlength
      have hpos : p.tokens.length - us.length = (p.goTo (o :: us)).pos + 1 := by
        simp only [goTo, List.length_cons]
        omega
      have hu : o :: us <:+ p.tokens :=
        (List.suffix_append read (o :: us)).trans (hread ▸ p.rest_suffix)
      have hopen : p.openUpTo (p.goTo (o :: us)).pos = outer := by
        rw [openUpTo, extract_eq_read hread, still, List.append_nil]
      rw [settle, goTo, hpos, full]
      refine .tooDeep ?_ ?_ opens ?_
      · simp only [goTo, List.length_cons]
        omega
      · rw [← List.head?_drop]
        exact congrArg List.head? (p.rest_goTo hu)
      · rw [hopen, ← full, counted]

/-- Whatever the tokens, the limit and the groups counted, a step from a cursor that is not at the
end has one of the three outcomes. -/
theorem element_outcome (p : Parser) (h : p.atEnd = false) : p.Outcome p.element := by
  obtain ⟨t, ts, hr, ht⟩ := exists_rest_of_not_atEnd h
  have hleaves : Leaves p.limit p.depth [] p.rest (Reading.element p.limit p.depth t ts) :=
    hr ▸ element_leaves (fun us _ => settles p.limit us) rfl
  have hsuffix := Reading.element_rest_suffix p.limit p.depth t ts
  rw [element_eq_settle hr ht]
  apply outcome_of_leaves hleaves
  rw [hr, List.length_cons]
  exact Nat.lt_succ_of_le hsuffix.length_le

def unclosedStep (limit : Int) : Parser := ⟨tokenize "\\a\x7b[x", limit, 0, 7⟩

theorem element_outcome_unclosed :
    ((unclosedStep 9).atEnd = false ∧ (unclosedStep 9).Outcome (unclosedStep 9).element ∧
        ((unclosedStep 9).element.2.pos, (unclosedStep 9).element.2.depth) = (4, 8)) ∧
      (unclosedStep 8).atEnd = false ∧ (unclosedStep 8).Outcome (unclosedStep 8).element ∧
        ((unclosedStep 8).element.2.pos, (unclosedStep 8).element.2.depth) = (3, 8) :=
  ⟨⟨by decide +kernel, element_outcome _ (by decide +kernel), by decide +kernel⟩,
    by decide +kernel, element_outcome _ (by decide +kernel), by decide +kernel⟩

end Parser

end TexHtml
