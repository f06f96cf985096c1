import TexHtml.Proofs.Occurrence
import TexHtml.Proofs.Visiting

namespace TexHtml.Html

open Shape

inductive CommentState where
  | start
  | startDash
  | text
  | dash
  | dashes
  | bang

namespace CommentState

def step : CommentState → Char → Option CommentState
  | .start, c => if c = '-' then some .startDash else if c = '>' then none else some .text
  | .startDash, c => if c = '-' then some .dashes else if c = '>' then none else some .text
  | .text, c => if c = '-' then some .dash else some .text
  | .dash, c => if c = '-' then some .dashes else some .text
  | .dashes, c =>
    if c = '-' then some .dashes
    else if c = '!' then some .bang
    else if c = '>' then none
    else some .text
  | .bang, c => if c = '-' then some .dash else if c = '>' then none else some .text

def behind? : CommentState → List Char → Option (List Char)
  | _, [] => none
  | s, c :: cs =>
    match s.step c with
    | some next => next.behind? cs
    | none => some cs

/-- The last characters read, as far as the state depends on them. At the start these are the dashes
that open the comment. -/
def recent : CommentState → List Char
  | .start | .startDash | .dashes => ['-', '-']
  | .text => []
  | .dash => ['-']
  | .bang => ['-', '-', '!']

end CommentState

def behindComment? : List Char → Option (List Char)
  | '<' :: '!' :: '-' :: '-' :: cs => CommentState.start.behind? cs
  | _ => none

def commentEnds : List (List Char) := ["-->".toList, "--!>".toList]

namespace CommentState

theorem recent_of_step {s next : CommentState} {c : Char} (h : s.step c = some next) :
    next.recent <:+ s.recent ++ [c] := by
  cases s <;> grind [step, recent]

theorem mem_commentEnds_of_step {s : CommentState} {c : Char} (h : s.step c = none) :
    s.recent ++ [c] ∈ commentEnds := by
  cases s <;> grind [step, recent, commentEnds]

theorem behind?_append {s : CommentState} {seen cs : List Char} (hs : s.recent <:+ seen)
    (h : ∀ mark ∈ commentEnds, ¬ mark <:+: seen ++ cs) :
    ∃ next : CommentState, ∀ rest, s.behind? (cs ++ rest) = next.behind? rest := by
  induction cs generalizing s seen with
  | nil => exact ⟨s, fun rest => rfl⟩
  | cons c cs ih =>
    have hread : s.recent ++ [c] <:+ seen ++ [c] := by
      obtain ⟨front, rfl⟩ := hs
      rw [List.append_assoc]
      exact List.suffix_append front _
    have happend : seen ++ c :: cs = seen ++ [c] ++ cs := by simp
    rw [happend] at h
    cases hstep : s.step c with
    | none =>
      -- The reader leaves the comment only behind an end mark, and none has been read.
      exact absurd (hread.isInfix.trans (List.prefix_append _ cs).isInfix)
        (h _ (mem_commentEnds_of_step hstep))
    | some t =>
      obtain ⟨next, hnext⟩ := ih ((recent_of_step hstep).trans hread) h
      refine ⟨next, fun rest => ?_⟩
      rw [List.cons_append, behind?, hstep]
      exact hnext rest

theorem step_blank (s : CommentState) : s.step ' ' = some text := by
  cases s <;> rfl

end CommentState

theorem behindComment?_append {body : List Char}
    (h : ∀ mark ∈ commentEnds, ¬ mark <:+: "<!--".toList ++ body) (rest : List Char) :
    behindComment? ("<!--".toList ++ body ++ " -->".toList ++ rest) = some rest := by
  have hstart : CommentState.start.recent <:+ "<!--".toList := by decide
  obtain ⟨next, hnext⟩ := CommentState.behind?_append hstart h
  calc
    behindComment? ("<!--".toList ++ body ++ " -->".toList ++ rest)
    _ = CommentState.start.behind? (body ++ (" -->".toList ++ rest)) := by
      rw [List.append_assoc, List.append_assoc]
      rfl
    _ = next.behind? (' ' :: '-' :: '-' :: '>' :: rest) := hnext _
    _ = CommentState.text.behind? ('-' :: '-' :: '>' :: rest) := by
      rw [CommentState.behind?, CommentState.step_blank]
    _ = some rest := rfl

example : behindComment? "<!-- a --!> b -->".toList = some " b -->".toList := by decide

section Unknown

variable {name : String} (hp : Proper (.command, name))

include hp

theorem name_of_unknown (hu : isKnownCommand name = false) :
    IsWord name ∨ (∃ c, name = String.ofList [c]) ∨ name = "" := by
  rcases hp with hword | rfl | ⟨c, hc, -⟩ | hempty
  · exact .inl hword
  · cases hu
  · exact .inr (.inl ⟨c, hc⟩)
  · exact .inr (.inr hempty)

theorem not_infix_of_mem_commentEnds {mark : List Char} (hm : mark ∈ commentEnds) :
    ¬ mark <:+: ("<!--" ++ (" Unknown command: " ++ name ++ " ")).toList := by
  have hmarks : ∀ mark ∈ commentEnds, mark ≠ [] ∧ '-' ∈ mark ∧ '>' ∈ mark ∧ ' ' ∉ mark ∧
      occurrences mark "<!--".toList = 0 := by decide
  obtain ⟨hne, hdash, hangle, hblank, hopening⟩ := hmarks mark hm
  have hbody : ¬ mark <:+: (" Unknown command: " ++ name ++ " ").toList :=
    hp.not_infix_comment hdash hangle (by decide) (by decide) (by decide) (by decide)
  have hhead : (" Unknown command: " ++ name ++ " ").toList.head? = some ' ' := by
    simp [String.toList_append]
  -- The blank behind the opening of the comment keeps its dashes apart from the name.
  rw [← occurrences_eq_zero_iff hne, String.toList_append,
    occurrences_append_of_head (by simpa [hhead] using hblank), hopening,
    (occurrences_eq_zero_iff hne).mpr hbody]

end Unknown

/-- No name that a source can give to an unknown command breaks out of the comment for it. -/
theorem unknownCommand_ends_at_end {source : String} {limit : Int} {document : Node}
    (h : parse (tokenize source) limit = .ok document) {name : String}
    {required optional : List Node} (hn : .command name required optional ∈ document.flatten)
    (hu : isKnownCommand name = false) (escaping : Bool) :
    ((name ≠ "" ∧ ∀ c ∈ name.toList, Text.isLetter c) ∨ (∃ c, name = String.ofList [c]) ∨
        name = "") ∧
      ∃ inner, render escaping (.command name required optional) =
          "<!-- Unknown command: " ++ name ++ " -->" ∧
        render escaping (.command name required optional) = inner ++ "-->" ∧
        ¬ "-->".toList <:+: inner.toList ∧ ¬ "--!>".toList <:+: inner.toList ∧
        ∀ rest, behindComment?
          ((render escaping (.command name required optional)).toList ++ rest) = some rest := by
  have hp : Proper (.command, name) := scanned_of_parse h _ hn
  have hrender : render escaping (.command name required optional) = unknownCommand name :=
    command_of_unknown hu _
  have hends := @not_infix_of_mem_commentEnds name hp
  refine ⟨name_of_unknown hp hu, "<!--" ++ (" Unknown command: " ++ name ++ " "), hrender,
    hrender.trans (unknownCommand_eq name), hends (by decide), hends (by decide), ?_⟩
  intro rest
  have hsplit : (unknownCommand name).toList =
      "<!--".toList ++ (" Unknown command: " ++ name).toList ++ " -->".toList := by
    simp [unknownCommand_eq, String.toList_append]
  rw [hrender, hsplit]
  refine behindComment?_append (fun mark hm hi => hends hm (hi.trans ?_)) rest
  rw [@String.toList_append "<!--", @String.toList_append (" Unknown command: " ++ name),
    ← List.append_assoc]
  exact (List.prefix_append _ _).isInfix

def endSigns : String := "\\-\\-\\>\\a[\\>]\x7b\\-\\!\x7d"

theorem unknownCommand_ends_at_end_angle :
    ∃ document required optional, parse (tokenize endSigns) nestingLimit = .ok document ∧
      .command ">" required optional ∈ document.flatten ∧ isKnownCommand ">" = false ∧
      ∀ rest, behindComment? ("<!-- Unknown command: > -->".toList ++ rest) = some rest := by
  have hread : (parse (tokenize endSigns) nestingLimit).map (fun _ => ()) = .ok () := by
    decide +kernel
  have hitem : Item.command ">" ∈ (tokenize endSigns).filterMap Token.item? := by decide +kernel
  obtain ⟨document, hparse, -⟩ := exists_ok_of_map_eq_ok hread
  rw [← items_of_parse_tokenize hparse] at hitem
  obtain ⟨n, hn, hname⟩ := List.mem_filterMap.mp hitem
  obtain ⟨required, optional, rfl⟩ : ∃ required optional, n = .command ">" required optional := by
    cases n <;> grind [Node.item?]
  obtain ⟨-, inner, hrender, -, -, -, hends⟩ := unknownCommand_ends_at_end hparse hn rfl true
  rw [hrender] at hends
  exact ⟨document, required, optional, hparse, hn, rfl, hends⟩

end TexHtml.Html
