import TexHtml.Document.Parser
import TexHtml.Proofs.Reading

namespace TexHtml

namespace Parser

def behind (p : Parser) : List Token := if p.atEnd then p.rest else p.rest.tail

def goTo (p : Parser) (us : List Token) : Parser := { p with pos := p.tokens.length - us.length }

def settle {α : Type} (p : Parser) : Parsed α → Stepped α
  | .ok value us => (.ok value, p.goTo us)
  | .stopped stop => (.error (.parse stop.error), { p.goTo stop.rest with depth := stop.depth })

theorem rest_goTo (p : Parser) {us : List Token} (h : us <:+ p.tokens) : (p.goTo us).rest = us :=
  (List.suffix_iff_eq_drop.mp h).symm

theorem rest_suffix (p : Parser) : p.rest <:+ p.tokens := List.drop_suffix p.pos p.tokens

theorem behind_suffix (p : Parser) : p.behind <:+ p.rest := by
  rw [behind]
  split
  · exact List.suffix_rfl
  · exact List.tail_suffix p.rest

theorem goTo_rest (p : Parser) (h : p.pos ≤ p.tokens.length) : p.goTo p.rest = p := by
  have hp : p.tokens.length - (p.tokens.length - p.pos) = p.pos := by omega
  rw [goTo, rest, List.length_drop, hp]

theorem goTo_le (p : Parser) (us : List Token) : (p.goTo us).pos ≤ (p.goTo us).tokens.length :=
  Nat.sub_le _ _

theorem settle_goTo {α : Type} (p : Parser) (us : List Token) (r : Parsed α) :
    (p.goTo us).settle r = p.settle r := by
  cases r with
  | ok value vs => rfl
  | stopped stop => rfl

theorem settle_andThen {α β : Type} (p : Parser) {r : Parsed α}
    {f : α → Parser → Stepped β} {g : α → List Token → Parsed β} (hr : r.rest <:+ p.tokens)
    (h : ∀ value us, us <:+ p.tokens → f value (p.goTo us) = p.settle (g value us)) :
    (p.settle r).andThen f = p.settle (r.andThen g) := by
  cases r with
  | ok value us => exact h value us hr
  | stopped stop => rfl

theorem advance_eq (p : Parser) {t : Token} (hp : p.pos ≤ p.tokens.length) (ht : p.current? = some t) :
    p.advance = (.ok t, p.goTo p.behind) := by
  rw [advance, ht, behind]
  dsimp only
  split
  · rw [goTo_rest p hp]
  · rename_i hend
    have hne : p.rest ≠ [] := by
      intro h
      simp [atEnd, h] at hend
    have hlt : p.pos < p.tokens.length := by
      simpa only [rest, ne_eq, List.drop_eq_nil_iff, Nat.not_le] using hne
    have hpos : p.tokens.length - (p.tokens.length - p.pos - 1) = p.pos + 1 := by omega
    rw [goTo, rest, List.length_tail, List.length_drop, hpos]

theorem check_cons (p : Parser) {t : Token} {ts : List Token} (h : p.rest = t :: ts)
    {kind : TokenKind} (hk : kind ≠ .endOfInput) : p.check kind = decide (t.kind = kind) := by
  rw [check, h]
  by_cases hq : t.kind = kind
  · simp [hq, hk]
  · simp [hq]

theorem current_cons (p : Parser) {t : Token} {ts : List Token} (h : p.rest = t :: ts) :
    p.current? = some t := by
  rw [current?, h]
  rfl

theorem behind_cons (p : Parser) {t : Token} {ts : List Token} (h : p.rest = t :: ts)
    (ht : t.kind ≠ .endOfInput) : p.behind = ts := by
  rw [behind, atEnd, h]
  simp [ht]

theorem closes_cons (p : Parser) {t : Token} {ts : List Token} (h : p.rest = t :: ts)
    (inside : Option Delimiter) : p.closes inside = t.kind.closes inside := by
  cases inside with
  | none => rfl
  | some d => exact p.check_cons h (by simp)

end Parser

namespace Drive

open TexHtml.Parser

structure Agrees (n : Nat) : Prop where
  elements (p : Parser) (hp : p.pos ≤ p.tokens.length) (inside : Option Delimiter) :
    Drive.elements n inside p = p.settle (Parse.elements p.limit n inside p.depth p.rest)
  element (p : Parser) (hp : p.pos ≤ p.tokens.length) {t : Token} (ht : p.current? = some t) :
    Drive.element n p = p.settle (Parse.element p.limit n p.depth t p.behind)
  command (p : Parser) (hp : p.pos ≤ p.tokens.length) {t : Token} (ht : p.current? = some t) :
    Drive.command n p = p.settle (Parse.command p.limit n p.depth t.content p.behind)
  groups (p : Parser) (hp : p.pos ≤ p.tokens.length) (d : Delimiter) :
    Drive.groups n d p = p.settle (Parse.groups p.limit n d p.depth p.rest)
  group (p : Parser) (hp : p.pos ≤ p.tokens.length) {t : Token} (ht : p.current? = some t)
    {d : Delimiter} (hd : t.kind = .opener d) :
    Drive.group n p = p.settle (Parse.group p.limit n d p.depth t p.behind)

namespace Agrees

variable {n : Nat} (h : Agrees n) (p : Parser)

include h

theorem elements_goTo (inside : Option Delimiter) {us : List Token} (hu : us <:+ p.tokens) :
    Drive.elements n inside (p.goTo us) =
      p.settle (Parse.elements p.limit n inside p.depth us) := by
  rw [h.elements (p.goTo us) (p.goTo_le us) inside, settle_goTo, p.rest_goTo hu]
  rfl

theorem groups_goTo (d : Delimiter) {us : List Token} (hu : us <:+ p.tokens) :
    Drive.groups n d (p.goTo us) = p.settle (Parse.groups p.limit n d p.depth us) := by
  rw [h.groups (p.goTo us) (p.goTo_le us) d, settle_goTo, p.rest_goTo hu]
  rfl

theorem elements_succ (hp : p.pos ≤ p.tokens.length) (inside : Option Delimiter) :
    Drive.elements (n + 1) inside p =
      p.settle (Parse.elements p.limit (n + 1) inside p.depth p.rest) := by
  have hs := Parse.leavesSuffix p.limit n
  rw [Drive.elements]
  cases hr : p.rest with
  | nil =>
    have hq : p.goTo [] = p := by rw [← hr, goTo_rest p hp]
    simp only [atEnd, hr, Bool.true_or, if_true, Parse.elements, settle, hq]
  | cons t ts =>
    have hts : ts <:+ p.tokens := (List.suffix_cons t ts).trans (hr ▸ p.rest_suffix)
    have hend : p.atEnd = decide (t.kind = .endOfInput) := by rw [atEnd, hr]
    rw [hend, p.closes_cons hr inside, Parse.elements]
    split
    · rw [settle, ← hr, goTo_rest p hp]
    · rename_i hstop
      have ht : t.kind ≠ .endOfInput := fun he => hstop (by simp [he])
      rw [h.element p hp (p.current_cons hr), p.behind_cons hr ht]
      apply settle_andThen p ((hs.element p.depth t ts).trans hts)
      intro found us hu
      rw [h.elements_goTo p inside hu]
      exact settle_andThen p ((hs.elements inside p.depth us).trans hu) fun _ _ _ => rfl

theorem element_succ (hp : p.pos ≤ p.tokens.length) {t : Token} (ht : p.current? = some t) :
    Drive.element (n + 1) p = p.settle (Parse.element p.limit (n + 1) p.depth t p.behind) := by
  have hs := Parse.leavesSuffix p.limit n
  have hb : p.behind <:+ p.tokens := p.behind_suffix.trans p.rest_suffix
  rw [Drive.element, ht, Parse.element.eq_def]
  cases hk : t.kind with
  | command =>
    simp only [hk]
    rw [h.command p hp ht]
    exact settle_andThen p ((hs.command p.depth t.content p.behind).trans hb) fun _ _ _ => rfl
  | opener d =>
    simp only [hk]
    rw [h.group p hp ht hk]
    exact settle_andThen p ((hs.group d p.depth t p.behind).trans hb) fun _ _ _ => rfl
  | text | closer _ | newline | math _ | endOfInput =>
    simp only [hk]
    rw [p.advance_eq hp ht]
    rfl

theorem command_succ (hp : p.pos ≤ p.tokens.length) {t : Token} (ht : p.current? = some t) :
    Drive.command (n + 1) p =
      p.settle (Parse.command p.limit (n + 1) p.depth t.content p.behind) := by
  have hs := Parse.leavesSuffix p.limit n
  have hb : p.behind <:+ p.tokens := p.behind_suffix.trans p.rest_suffix
  rw [Drive.command, p.advance_eq hp ht, Stepped.andThen, Parse.command]
  rw [h.groups_goTo p .bracket hb]
  apply settle_andThen p ((hs.groups .bracket p.depth p.behind).trans hb)
  intro optional us hu
  rw [h.groups_goTo p .brace hu]
  exact settle_andThen p ((hs.groups .brace p.depth us).trans hu) fun _ _ _ => rfl

theorem groups_succ (hp : p.pos ≤ p.tokens.length) (d : Delimiter) :
    Drive.groups (n + 1) d p = p.settle (Parse.groups p.limit (n + 1) d p.depth p.rest) := by
  have hs := Parse.leavesSuffix p.limit n
  rw [Drive.groups]
  cases hr : p.rest with
  | nil =>
    have hq : p.goTo [] = p := by rw [← hr, goTo_rest p hp]
    simp [check, hr, Parse.groups, settle, hq]
  | cons t ts =>
    have hts : ts <:+ p.tokens := (List.suffix_cons t ts).trans (hr ▸ p.rest_suffix)
    rw [p.check_cons hr (by simp), Parse.groups]
    by_cases hd : t.kind = .opener d
    · rw [if_pos (by simpa using hd), if_pos hd, h.group p hp (p.current_cons hr) hd,
        p.behind_cons hr (by simp [hd])]
      apply settle_andThen p ((hs.group d p.depth t ts).trans hts)
      intro first us hu
      rw [h.groups_goTo p d hu]
      exact settle_andThen p ((hs.groups d p.depth us).trans hu) fun _ _ _ => rfl
    · rw [if_neg (by simpa using hd), if_neg hd, settle, ← hr, goTo_rest p hp]

theorem group_succ (hp : p.pos ≤ p.tokens.length) {t : Token} (ht : p.current? = some t)
    {d : Delimiter} (hd : t.kind = .opener d) :
    Drive.group (n + 1) p = p.settle (Parse.group p.limit (n + 1) d p.depth t p.behind) := by
  have hb : p.behind <:+ p.tokens := p.behind_suffix.trans p.rest_suffix
  rw [Drive.group, p.advance_eq hp ht, Stepped.andThen, Parse.group]
  simp only [hd]
  by_cases hl : p.limit ≤ p.depth
  · rw [if_pos hl, if_pos (show (p.goTo p.behind).limit ≤ (p.goTo p.behind).depth from hl)]
    rfl
  · rw [if_neg hl, if_neg (show ¬ (p.goTo p.behind).limit ≤ (p.goTo p.behind).depth from hl)]
    have he := h.elements_goTo p.enter (some d) hb
    rw [show (p.goTo p.behind).enter = p.enter.goTo p.behind from rfl, he]
    have hr := ((Parse.leavesSuffix p.limit n).elements (some d) (p.depth + 1) p.behind).trans hb
    change Stepped.andThen (p.enter.settle
      (Parse.elements p.limit n (some d) (p.depth + 1) p.behind)) _ = _
    cases hq : Parse.elements p.limit n (some d) (p.depth + 1) p.behind with
    | stopped stop => rfl
    | ok nodes us =>
      rw [hq] at hr
      have hu : us <:+ p.tokens := hr
      have hleave : (p.enter.goTo us).leave = p.goTo us := by
        simp [enter, leave, goTo]
      simp only [settle, Stepped.andThen, hleave, Parsed.ok_andThen]
      cases us with
      | nil =>
        rw [check, p.rest_goTo hu]
        rfl
      | cons u us =>
        rw [(p.goTo (u :: us)).check_cons (p.rest_goTo hu) (by simp), Parse.endGroup]
        by_cases hc : u.kind = .closer d
        · rw [if_pos (by simpa using hc), if_pos hc,
            (p.goTo (u :: us)).advance_eq (p.goTo_le _) (current_cons _ (p.rest_goTo hu)),
            behind_cons _ (p.rest_goTo hu) (by simp [hc])]
          rfl
        · rw [if_neg (by simpa using hc), if_neg hc]
          rfl

end Agrees

theorem agrees (n : Nat) : Agrees n := by
  induction n with
  | zero =>
    constructor
    · intro p hp inside
      rw [Drive.elements, Parse.elements, settle, goTo_rest p hp]
    · intro p hp t ht
      rw [Drive.element, p.advance_eq hp ht]
      rfl
    · intro p hp t ht
      rw [Drive.command, p.advance_eq hp ht]
      rfl
    · intro p hp d
      rw [Drive.groups, Parse.groups, settle, goTo_rest p hp]
    · intro p hp t ht d hd
      rw [Drive.group, p.advance_eq hp ht]
      rfl
  | succ n ih =>
    exact ⟨ih.elements_succ, ih.element_succ, ih.command_succ, ih.groups_succ, ih.group_succ⟩

end Drive

namespace Parser

theorem parse_start (ts : List Token) (limit : Int) :
    (start ts limit).parse.1 = .ok (TexHtml.parse ts limit) := by
  have h : Drive.elements (fuel ts) none (start ts limit) =
      (start ts limit).settle (parseAll ts limit) :=
    (Drive.agrees (fuel ts)).elements (start ts limit) (Nat.zero_le _) none
  have hp : (start ts limit).parse = answer (Drive.elements (fuel ts) none (start ts limit)) := rfl
  rw [hp, h, TexHtml.parse]
  cases parseAll ts limit with
  | ok nodes us => rfl
  | stopped stop => rfl

end Parser

end TexHtml
