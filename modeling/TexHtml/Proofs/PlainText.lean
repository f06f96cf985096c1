import TexHtml.Proofs.NewlineJoin

namespace TexHtml

def lineBody (line : List Char) : List Char := Text.trimStart Text.isBlank line

def lineShapes (line : List Char) : List Shape :=
  if lineBody line = [] then [] else [(.text, String.ofList (lineBody line))]

section Line

variable {line : List Char} (hline : ∀ c ∈ line, endsText c = false)

include hline

theorem scans_line {rest : List Char} {shapes : List Shape} (hrest : ∀ c ∈ rest.head?, endsText c)
    (h : Scans rest shapes) : Scans (line ++ rest) (lineShapes line ++ shapes) := by
  induction line with
  | nil => exact h
  | cons c line ih =>
    obtain ⟨hc, hline'⟩ := List.forall_mem_cons.mp hline
    by_cases hb : Text.isBlank c
    · have hbody : lineBody (c :: line) = lineBody line := List.dropWhile_cons_of_pos hb
      have hblank : Lexeme [c] none (line ++ rest) := .blank hb hc
      rw [lineShapes, hbody]
      exact .cons hblank (ih hline')
    · have hbody : lineBody (c :: line) = c :: line := List.dropWhile_cons_of_neg hb
      have htext : Lexeme (c :: line) (some (.text, String.ofList (c :: line))) rest :=
        .text (by simp) hline (by simpa using hb) hrest
      rw [lineShapes, hbody, if_neg (by simp)]
      exact .cons htext h

theorem endsInNewline_line : EndsInNewline (String.ofList line ++ "\n") := by
  have hscans : Scans (String.ofList line ++ "\n").toList
      (lineShapes line ++ [(.newline, "\n"), (.endOfInput, "")]) := by
    rw [String.toList_append, String.toList_ofList]
    exact scans_line hline (by simp [endsText]) (.cons .newline .nil)
  have hbefore (ts : List Token) : (beforeEnd ts).getLast?.map Token.kind =
      ((ts.map Token.shape).takeWhile fun a => a.1 ≠ .endOfInput).getLast?.map Prod.fst := by
    rw [List.takeWhile_map, List.getLast?_map, Option.map_map]
    rfl
  rw [EndsInNewline, hbefore, scans_iff.mp hscans, lineShapes]
  split <;> rfl

theorem parse_line :
    parse (tokenize (String.ofList line)) nestingLimit =
      .ok (.group ((lineShapes line).map fun a => .text a.2)) := by
  have hscans : Scans (String.ofList line).toList (lineShapes line ++ [(.endOfInput, "")]) := by
    have hscans := @scans_line line hline [] _ (by simp) .nil
    rw [List.append_nil] at hscans
    rwa [String.toList_ofList]
  have hshapes := scans_iff.mp hscans
  have hend {e : Token} (he : e.kind = .endOfInput) :
      Reading.elements nestingLimit none 0 [e] = .ok [] [e] :=
    Reading.elements_stop _ _ _ _ _ (.inl he)
  rw [parse, parseAll_eq]
  rw [lineShapes] at hshapes ⊢
  split at hshapes
  · rename_i hbody
    obtain ⟨e, he, hshape⟩ := List.map_eq_singleton_iff.mp hshapes
    rw [he, hend (congrArg Prod.fst hshape), if_pos hbody]
    rfl
  · rename_i hbody
    obtain ⟨t, ts, ht, hshape, hrest⟩ := List.map_eq_cons_iff.mp hshapes
    obtain ⟨e, rfl, hend'⟩ := List.map_eq_singleton_iff.mp hrest
    have hleaf : t.leaf? = some (.text (String.ofList (lineBody line))) := by
      have hkind : t.kind = .text := congrArg Prod.fst hshape
      have hcontent : t.content = String.ofList (lineBody line) := congrArg Prod.snd hshape
      rw [Token.leaf?, hkind, hcontent]
    rw [ht, Grammar.elements_leaf _ hleaf, hend (congrArg Prod.fst hend'), if_neg hbody]
    rfl

theorem compiled_line :
    compiled true (String.ofList line) = .ok (Html.escape (String.ofList (lineBody line))) := by
  have hmarkup : Html.render true (.group ((lineShapes line).map fun a => .text a.2)) =
      Html.escape (String.ofList (lineBody line)) := by
    rw [lineShapes]
    split
    · rename_i hbody
      rw [hbody]
      rfl
    · simp [String.join]
  rw [compiled, parse_line hline]
  exact congrArg Except.ok hmarkup

end Line

def markupChars : List Char := ['\\', '\x7b', '\x7d', '[', ']', '$']

theorem endsText_eq_false_of_plain {c : Char} (h : c ∉ markupChars) (hn : c ≠ '\n') :
    endsText c = false := by
  rw [← Bool.not_eq_true, ← Shape.mem_stops]
  simp only [markupChars, List.mem_cons, List.not_mem_nil, or_false, not_or] at h
  simp [Shape.stops, h, hn]

def joinedLines (cs : List Char) : String :=
  " ".intercalate ((cs.splitOn '\n').map fun line => String.ofList (lineBody line))

theorem joinedLines_of_line {line : List Char} (h : '\n' ∉ line) :
    joinedLines line = String.ofList (lineBody line) := by
  have hsplit : line.splitOn '\n' = [line] := by
    apply List.splitOnP_eq_singleton
    simpa using fun c hc => (ne_of_mem_of_not_mem hc h)
  rw [joinedLines, hsplit]
  exact String.intercalate_singleton

theorem joinedLines_newline {line : List Char} (h : '\n' ∉ line) (cs : List Char) :
    joinedLines (line ++ '\n' :: cs) = String.ofList (lineBody line) ++ " " ++ joinedLines cs := by
  have hsplit : (line ++ '\n' :: cs).splitOn '\n' = line :: cs.splitOn '\n' := by
    apply List.splitOnP_append_cons_of_forall_mem
    · simpa using fun c hc => (ne_of_mem_of_not_mem hc h)
    · exact beq_self_eq_true '\n'
  rw [joinedLines, hsplit, List.map_cons, String.intercalate_cons_of_ne_nil]
  · rfl
  · simp

theorem compiled_plain (cs : List Char) (h : ∀ c ∈ cs, c ∉ markupChars) :
    compiled true (String.ofList cs) = .ok (Html.escape (joinedLines cs)) := by
  induction hn : cs.length using Nat.strongRecOn generalizing cs with
  | ind n ih =>
    obtain ⟨line, rest, rfl, hline, hrest⟩ := exists_run (· != '\n') cs
    have hnewline : '\n' ∉ line := fun hmem => by simpa using hline '\n' hmem
    have htext (c : Char) (hc : c ∈ line) : endsText c = false :=
      endsText_eq_false_of_plain (h c (List.mem_append_left rest hc))
        (ne_of_mem_of_not_mem hc hnewline)
    cases rest with
    | nil =>
      rw [List.append_nil, joinedLines_of_line hnewline]
      exact compiled_line htext
    | cons c rest =>
      obtain rfl : c = '\n' := by simpa using hrest
      have hshort : rest.length < n := by
        rw [← hn, List.length_append, List.length_cons]
        omega
      have hbelow := ih rest.length hshort rest
        (fun c hc => h c (List.mem_append_right line (List.mem_cons_of_mem _ hc))) rfl
      have hjoin := (compiled_newline (compiled_line htext) (endsInNewline_line htext)
        (String.ofList rest)).1 _ hbelow
      have hsource : String.ofList (line ++ '\n' :: rest) =
          String.ofList line ++ "\n" ++ String.ofList rest := by
        simp [← String.toList_inj]
      rw [hsource, hjoin, joinedLines_newline hnewline, Html.escape_append, Html.escape_append]
      rfl

/-- A source without markup is compiled, by default, to its lines without the blanks they begin
with, joined by single spaces and escaped. -/
theorem compileFragment_plain (source : String) (h : ∀ c ∈ source.toList, c ∉ markupChars) :
    compileFragment (.str source) [] = .ok (Html.escape (joinedLines source.toList)) := by
  have hcompiled := compiled_plain source.toList h
  rw [String.ofList_toList] at hcompiled
  rw [← hcompiled]
  exact compileFragment_default rfl

def spacedText : String := " \t\u2003a <b> \r\n\n\u00a0c & d\n \u001c "

theorem compileFragment_plain_spaced :
    (∀ c ∈ spacedText.toList, c ∉ markupChars) ∧
      compileFragment (.str spacedText) [] = .ok "a &lt;b&gt; \r  c &amp; d " := by
  have hplain : (spacedText.toList.all fun c => !markupChars.contains c) = true := by
    decide +kernel
  have h (c : Char) (hc : c ∈ spacedText.toList) : c ∉ markupChars := by
    simpa using List.all_eq_true.mp hplain c hc
  have hmarkup : Html.escape (joinedLines spacedText.toList) = "a &lt;b&gt; \r  c &amp; d " := by
    decide +kernel
  refine ⟨h, ?_⟩
  rw [compileFragment_plain spacedText h, hmarkup]

end TexHtml
