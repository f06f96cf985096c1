import TexHtml.Source.Cursor
import TexHtml.Text.CharClass
import TexHtml.Token.Basic

/-!
Scanning a source into tokens. Scanning never fails: a character without a meaning of its own is
text, and math that is not closed takes the rest of the source.
-/

namespace TexHtml

def Place.location (p : Place) : Location := ⟨p.offset, some p.line, some p.column⟩

def endsText (c : Char) : Bool :=
  c = '\\' || c = '\x7b' || c = '\x7d' || c = '[' || c = ']' || c = '$' || c = '\n'

def delimiterKind? (c : Char) : Option TokenKind :=
  if c = '\x7b' then some (.opener .brace)
  else if c = '\x7d' then some (.closer .brace)
  else if c = '[' then some (.opener .bracket)
  else if c = ']' then some (.closer .bracket)
  else none

namespace Cursor

def token (c : Cursor) (kind : TokenKind) (content : List Char) : Token :=
  ⟨kind, String.ofList content, c.place.location⟩

/-- A command: the character at the cursor, then a second backslash, a run of letters or any one
character. At the end of the source the name is empty. -/
def command (c : Cursor) : Token × Cursor :=
  let body := c.skip 1
  match body.rest with
  | [] => (c.token .command [], body)
  | ch :: _ =>
    if ch = '\\' then (c.token .command lineBreakName.toList, body.skip 1)
    else if Text.isLetter ch then
      (c.token .command (body.span Text.isLetter).1, (body.span Text.isLetter).2)
    else (c.token .command [ch], body.skip 1)

/-- Math between single or double dollar signs. One dollar sign closes display math too, and a
second one behind it is read as part of the closing. -/
def math (c : Cursor) : Token × Cursor :=
  let body := c.skip 1
  if body.rest.head? = some '$' then
    let inner := (body.skip 1).span (· != '$')
    (c.token (.math true) inner.1, (inner.2.skipIf '$').skipIf '$')
  else
    let inner := body.span (· != '$')
    (c.token (.math false) inner.1, inner.2.skipIf '$')

def textRun (c : Cursor) : Option Token × Cursor :=
  let run := c.span (fun ch => !endsText ch)
  (if run.1.isEmpty then none else some (c.token .text run.1), run.2)

def step (c : Cursor) (ch : Char) : Option Token × Cursor :=
  if ch = '\\' then (some c.command.1, c.command.2)
  else if ch = '$' then (some c.math.1, c.math.2)
  else if ch = '\n' then (some (c.token .newline [ch]), c.skip 1)
  else
    match delimiterKind? ch with
    | some kind => (some (c.token kind [ch]), c.skip 1)
    | none => if Text.isBlank ch then (none, c.skip 1) else c.textRun

theorem command_rest_length {c : Cursor} (h : c.rest ≠ []) :
    c.command.2.rest.length < c.rest.length := by
  have hpos : 0 < c.rest.length := List.length_pos_iff.mpr h
  have hbody := skip_rest_length c 1
  have hspan := span_rest_length (c.skip 1) Text.isLetter
  have hnext := skip_rest_length (c.skip 1) 1
  simp only [command]
  split
  · simp only; omega
  · split
    · simp only; omega
    · split <;> simp only <;> omega

theorem math_rest_length {c : Cursor} (h : c.rest ≠ []) :
    c.math.2.rest.length < c.rest.length := by
  have hpos : 0 < c.rest.length := List.length_pos_iff.mpr h
  have hbody := skip_rest_length c 1
  simp only [math]
  split
  · have h1 := skip_rest_length (c.skip 1) 1
    have h2 := span_rest_length ((c.skip 1).skip 1) (· != '$')
    have h3 := skipIf_rest_length (((c.skip 1).skip 1).span (· != '$')).2 '$'
    have h4 := skipIf_rest_length ((((c.skip 1).skip 1).span (· != '$')).2.skipIf '$') '$'
    simp only
    omega
  · have h2 := span_rest_length (c.skip 1) (· != '$')
    have h3 := skipIf_rest_length ((c.skip 1).span (· != '$')).2 '$'
    simp only
    omega

theorem endsText_eq_false {ch : Char} (h1 : ch ≠ '\\') (h2 : ch ≠ '$') (h3 : ch ≠ '\n')
    (h4 : delimiterKind? ch = none) : endsText ch = false := by
  simp only [delimiterKind?] at h4
  simp only [endsText, Bool.or_eq_false_iff, decide_eq_false_iff_not]
  grind

theorem step_rest_length {c : Cursor} {ch : Char} {rest : List Char} (h : c.rest = ch :: rest) :
    (c.step ch).2.rest.length < c.rest.length := by
  have hne : c.rest ≠ [] := by simp [h]
  have hskip : (c.skip 1).rest.length < c.rest.length := by
    rw [skip_rest_length, h]; simp
  unfold step
  split
  · exact command_rest_length hne
  · split
    · exact math_rest_length hne
    · split
      · exact hskip
      · split
        · exact hskip
        · split
          · exact hskip
          · have hstop : endsText ch = false := by
              apply endsText_eq_false <;> assumption
            simp only [textRun, span, h, List.dropWhile_cons, hstop, Bool.not_false, if_true,
              List.length_cons]
            have := (List.dropWhile_suffix (fun ch => !endsText ch) (l := rest)).length_le
            omega

def scan (c : Cursor) : List Token × Cursor :=
  match _h : c.rest with
  | [] => ([c.token .endOfInput []], c)
  | ch :: _ =>
    let (tokens, last) := scan (c.step ch).2
    ((c.step ch).1.toList ++ tokens, last)
termination_by c.rest.length
decreasing_by exact step_rest_length _h

def tokens (c : Cursor) : List Token := c.scan.1

end Cursor

def tokenize (text : String) : List Token := (Cursor.start text.toList).tokens

end TexHtml
