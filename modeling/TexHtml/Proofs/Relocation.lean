import TexHtml.Proofs.Reading

namespace TexHtml

def Token.relocate (f : Location → Location) (t : Token) : Token := { t with location := f t.location }

def ParseError.relocate (f : Location → Location) (e : ParseError) : ParseError :=
  { e with location := f e.location }

variable {f : Location → Location}

@[simp] theorem Token.relocate_kind (t : Token) : (t.relocate f).kind = t.kind := rfl

namespace Parsed

variable {α β : Type}

def relocate (f : Location → Location) : Parsed α → Parsed α
  | ok value us => ok value (us.map (Token.relocate f))
  | stopped stop => stopped ⟨stop.error.relocate f, stop.rest.map (Token.relocate f), stop.depth⟩

theorem relocate_andThen {r r' : Parsed α} {g g' : α → List Token → Parsed β}
    (hr : r' = r.relocate f) (hg : ∀ value us, g' value (us.map (Token.relocate f)) =
      (g value us).relocate f) : r'.andThen g' = (r.andThen g).relocate f := by
  subst hr
  cases r with
  | ok value us => exact hg value us
  | stopped stop => rfl

end Parsed

namespace Parse

structure Relocates (limit : Int) (f : Location → Location) (n : Nat) : Prop where
  elements (inside : Option Delimiter) (depth : Int) (ts : List Token) :
    Parse.elements limit n inside depth (ts.map (Token.relocate f)) =
      (Parse.elements limit n inside depth ts).relocate f
  element (depth : Int) (t : Token) (ts : List Token) :
    Parse.element limit n depth (t.relocate f) (ts.map (Token.relocate f)) =
      (Parse.element limit n depth t ts).relocate f
  command (depth : Int) (name : String) (ts : List Token) :
    Parse.command limit n depth name (ts.map (Token.relocate f)) =
      (Parse.command limit n depth name ts).relocate f
  groups (d : Delimiter) (depth : Int) (ts : List Token) :
    Parse.groups limit n d depth (ts.map (Token.relocate f)) =
      (Parse.groups limit n d depth ts).relocate f
  group (d : Delimiter) (depth : Int) (opener : Token) (ts : List Token) :
    Parse.group limit n d depth (opener.relocate f) (ts.map (Token.relocate f)) =
      (Parse.group limit n d depth opener ts).relocate f

theorem endGroup_relocate (d : Delimiter) (depth : Int) (opener : Token) (nodes : List Node)
    (ts : List Token) :
    endGroup d depth (opener.relocate f) nodes (ts.map (Token.relocate f)) =
      (endGroup d depth opener nodes ts).relocate f := by
  cases ts with
  | nil => rfl
  | cons t ts =>
    rw [List.map_cons, endGroup, endGroup, Token.relocate_kind]
    split <;> rfl

theorem relocates (limit : Int) (f : Location → Location) (n : Nat) : Relocates limit f n := by
  induction n with
  | zero =>
    constructor
    all_goals intros; rfl
  | succ n ih =>
    constructor
    · intro inside depth ts
      cases ts with
      | nil => rfl
      | cons t ts =>
        rw [List.map_cons, Parse.elements, Parse.elements, Token.relocate_kind]
        split
        · rfl
        · apply Parsed.relocate_andThen (ih.element depth t ts)
          intro found us
          exact Parsed.relocate_andThen (ih.elements inside depth us) fun _ _ => rfl
    · intro depth t ts
      rw [Parse.element.eq_def, Parse.element.eq_def]
      dsimp only
      rw [Token.relocate_kind]
      split
      · exact Parsed.relocate_andThen (ih.command depth t.content ts) fun _ _ => rfl
      · exact Parsed.relocate_andThen (ih.group _ depth t ts) fun _ _ => rfl
      · rfl
    · intro depth name ts
      rw [Parse.command, Parse.command]
      apply Parsed.relocate_andThen (ih.groups .bracket depth ts)
      intro optional us
      exact Parsed.relocate_andThen (ih.groups .brace depth us) fun _ _ => rfl
    · intro d depth ts
      cases ts with
      | nil => rfl
      | cons t ts =>
        rw [List.map_cons, Parse.groups, Parse.groups, Token.relocate_kind]
        split
        · apply Parsed.relocate_andThen (ih.group d depth t ts)
          intro first us
          exact Parsed.relocate_andThen (ih.groups d depth us) fun _ _ => rfl
        · rfl
    · intro d depth opener ts
      rw [Parse.group, Parse.group]
      split
      · rfl
      · exact Parsed.relocate_andThen (ih.elements (some d) (depth + 1) ts)
          (endGroup_relocate d depth opener)

end Parse

theorem parseAll_relocate (ts : List Token) (limit : Int) :
    parseAll (ts.map (Token.relocate f)) limit = (parseAll ts limit).relocate f := by
  rw [parseAll, parseAll, fuel, List.length_map]
  exact (Parse.relocates limit f _).elements none 0 ts

theorem parse_relocate (ts : List Token) (limit : Int) :
    parse (ts.map (Token.relocate f)) limit = (parse ts limit).mapError (ParseError.relocate f) := by
  rw [parse, parse, parseAll_relocate]
  cases parseAll ts limit with
  | ok nodes us => rfl
  | stopped stop => rfl

def Location.moveOthers (kept : List Location) (l : Location) : Location :=
  if l ∈ kept then l else { l with offset := l.offset + 1 }

theorem Location.mem_of_moveOthers_eq {kept : List Location} {l : Location}
    (h : l.moveOthers kept = l) : l ∈ kept := by
  by_cases hl : l ∈ kept
  · exact hl
  · rw [moveOthers, if_neg hl] at h
    have ho := congrArg Location.offset h
    dsimp only at ho
    omega

theorem exists_token_of_parse_error {ts : List Token} {limit : Int} {e : ParseError}
    (h : parse ts limit = .error e) : ∃ t ∈ ts, t.location = e.location := by
  -- a move that leaves all tokens where they are leaves the error where it is
  have hts : ts.map (Token.relocate (Location.moveOthers (ts.map Token.location))) = ts := by
    have hid : ∀ t ∈ ts, t.relocate (Location.moveOthers (ts.map Token.location)) = id t := by
      intro t ht
      rw [Token.relocate, Location.moveOthers, if_pos (List.mem_map_of_mem ht)]
      rfl
    rw [List.map_congr_left hid, List.map_id]
  have hp : parse (ts.map (Token.relocate (Location.moveOthers (ts.map Token.location)))) limit = _ :=
    parse_relocate ts limit
  rw [hts, h] at hp
  have he := congrArg ParseError.location (Except.error.inj hp)
  exact List.mem_map.mp (Location.mem_of_moveOthers_eq he.symm)

end TexHtml
