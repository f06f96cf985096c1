import TexHtml.Proofs.Fragment
import TexHtml.Proofs.GrammarSound
import TexHtml.Proofs.Placement
import TexHtml.Proofs.Relocation
import TexHtml.Proofs.Rendering

namespace TexHtml

namespace Place

def shift (n l : Nat) (p : Place) : Place := ⟨p.offset + n, p.line + l, p.column⟩

theorem after_shift (n l : Nat) (p : Place) (c : Char) :
    (p.shift n l).after c = (p.after c).shift n l := by
  simp only [after, shift]
  split
  · simp only [Place.mk.injEq, and_true]
    omega
  · simp only [Place.mk.injEq, and_true]
    omega

theorem afterAll_shift (n l : Nat) (p : Place) (cs : List Char) :
    (p.shift n l).afterAll cs = (p.afterAll cs).shift n l := by
  induction cs generalizing p with
  | nil => rfl
  | cons c cs ih => rw [afterAll_cons, after_shift, ih, afterAll_cons]

theorem start_after_newline (cs : List Char) :
    (start.afterAll cs).after '\n' = start.shift (cs.length + 1) (cs.count '\n' + 1) := by
  simp only [after, if_true, shift, offset_afterAll, line_afterAll, start, Place.mk.injEq, and_true]
  omega

end Place

def Location.shift (n l : Nat) (x : Location) : Location :=
  ⟨x.offset + n, x.line.map (· + (l : Int)), x.column⟩

theorem Place.location_shift (n l : Nat) (p : Place) :
    (p.shift n l).location = p.location.shift n l := by
  simp [location, shift, Location.shift]

section Scanning

variable {p : Place} {read rest : List Char} {ts : List Token}

theorem Reads.shift (n l : Nat) (h : Reads p read ts rest) :
    Reads (p.shift n l) read (ts.map (Token.relocate (Location.shift n l))) rest := by
  induction h with
  | nil => exact .nil
  | @cons p read more rest shape ts first tail ih =>
    have hshape : ((shape.map (Shape.place p)).toList ++ ts).map (Token.relocate (.shift n l)) =
        (shape.map (Shape.place (p.shift n l))).toList ++
          ts.map (Token.relocate (.shift n l)) := by
      cases shape with
      | none => rfl
      | some a => simp [Shape.place, Token.relocate, Place.location_shift]
    rw [hshape]
    rw [← Place.afterAll_shift] at ih
    exact .cons first ih

theorem Cursor.tokens_shift (n l : Nat) (p : Place) (cs : List Char) :
    (⟨p.shift n l, cs⟩ : Cursor).tokens =
      (⟨p, cs⟩ : Cursor).tokens.map (Token.relocate (.shift n l)) := by
  obtain ⟨ts, hts⟩ := Reads.exists_of_text p cs
  rw [hts.tokens_eq, (hts.shift n l).tokens_eq, List.map_append, Place.afterAll_shift]
  simp [endToken, Token.relocate, Place.location_shift]

theorem Lexeme.read_of_newline {a : Shape} (h : Lexeme read (some a) rest) (ha : a.1 = .newline) :
    read = ['\n'] ∧ a = (.newline, "\n") := by
  cases h with
  | newline => exact ⟨rfl, rfl⟩
  | delimiter hk =>
    obtain ⟨-, rfl⟩ | ⟨-, rfl⟩ | ⟨-, rfl⟩ | ⟨-, rfl⟩ := Shape.delimiterKind?_eq_some hk <;> cases ha
  | _ => cases ha

/-- In front of a newline it makes no difference what follows the newline, nor whether there is one
at all. -/
theorem Lexeme.before_newline {more us vs : List Char} {shape : Option Shape}
    (h : Lexeme read shape (more ++ '\n' :: us)) (hv : ∀ c ∈ vs.head?, c = '\n') :
    Lexeme read shape (more ++ vs) := by
  have hhead (q : Char → Prop) (hq : q '\n') (hm : ∀ c ∈ (more ++ '\n' :: us).head?, q c) :
      ∀ c ∈ (more ++ vs).head?, q c := by
    cases more with
    | nil =>
      intro c hc
      rw [hv c hc]
      exact hq
    | cons d more => exact hm
  generalize hr : more ++ '\n' :: us = behind at h hhead
  cases h with
  | blank hb hc => exact .blank hb hc
  | newline => exact .newline
  | delimiter hk => exact .delimiter hk
  | lineBreak => exact .lineBreak
  | name hne hl hn => exact .name hne hl (hhead _ (by decide) hn)
  | symbol hl hc => exact .symbol hl hc
  | inline hne hd => exact .inline hne hd
  | display hd => exact .display hd
  | displayHalf hd hn =>
    refine .displayHalf hd fun he => ?_
    exact hhead (· ≠ '$') (by decide) (fun c hc hd => hn (hd ▸ hc)) '$' he rfl
  | text hne hc hb hn => exact .text hne hc hb (hhead _ (by decide) hn)
  -- the others reach the end of the text, and here a newline follows
  | backslash => simp at hr
  | inlineOpen hd => simp at hr
  | displayOpen hd => simp at hr

theorem Reads.before_newline {us vs : List Char} (h : Reads p read ts ('\n' :: us))
    (hv : ∀ c ∈ vs.head?, c = '\n') : Reads p read ts vs := by
  generalize hr : '\n' :: us = behind at h
  induction h with
  | nil => exact .nil
  | cons first tail ih =>
    subst hr
    exact .cons (first.before_newline hv) (ih rfl)

theorem Reads.tokens_eq_nil (h : Reads p [] ts rest) : ts = [] := by
  generalize hr : ([] : List Char) = cs at h
  cases h with
  | nil => rfl
  | cons first tail => exact absurd (List.append_eq_nil_iff.mp hr.symm).1 first.read_ne_nil

theorem Lexeme.ends_in_newline {cs : List Char} {shape : Option Shape}
    (h : Lexeme (cs ++ ['\n']) shape rest) :
    cs = [] ∧ shape = some (.newline, "\n") ∨ ∃ a, shape = some a ∧ a.1 ≠ .newline := by
  cases shape with
  | some a =>
    by_cases ha : a.1 = .newline
    · obtain ⟨hcs, rfl⟩ := h.read_of_newline ha
      exact .inl ⟨by simpa using hcs, rfl⟩
    · exact .inr ⟨a, rfl, ha⟩
  | none =>
    -- only blanks give no token, and a newline is none of them
    generalize hcs : cs ++ ['\n'] = ds at h
    cases h with
    | @blank c _ hb hc =>
      have hlast : c = '\n' := by simpa using (congrArg List.getLast? hcs).symm
      subst hlast
      exact absurd hc (by decide)

theorem Reads.cut_newline {cs : List Char} (h : Reads p (cs ++ ['\n']) ts []) :
    (∃ us, Reads p cs us ['\n'] ∧ ts = us ++ [Shape.place (p.afterAll cs) (.newline, "\n")]) ∨
      ∃ t, ts.getLast? = some t ∧ t.kind ≠ .newline := by
  generalize hcs : cs ++ ['\n'] = ds at h
  generalize hr : ([] : List Char) = rest at h
  induction h generalizing cs with
  | nil => simp at hcs
  | @cons p read more rest shape ts first tail ih =>
    subst hr
    -- the newline belongs to this lexeme only if nothing is left behind it
    rcases List.eq_nil_or_concat' more with rfl | ⟨init, c, rfl⟩
    · cases tail.tokens_eq_nil
      rw [List.append_nil] at hcs
      subst hcs
      rcases first.ends_in_newline with ⟨rfl, rfl⟩ | ⟨a, rfl, ha⟩
      · exact .inl ⟨[], .nil, rfl⟩
      · exact .inr ⟨a.place p, rfl, ha⟩
    · rw [← List.append_assoc] at hcs
      obtain ⟨rfl, hc⟩ := List.append_inj' hcs rfl
      cases hc
      rcases ih rfl rfl with ⟨us, hus, rfl⟩ | ⟨t, ht, hk⟩
      · refine .inl ⟨(shape.map (Shape.place p)).toList ++ us, ?_, ?_⟩
        · exact .cons (by simpa using first) hus
        · rw [Place.afterAll_append, List.append_assoc]
      · refine .inr ⟨t, ?_, hk⟩
        rw [List.getLast?_append, ht]
        rfl

theorem Reads.beforeEnd_tokenize {text : String} (h : Reads .start text.toList ts []) :
    beforeEnd (tokenize text) = ts := by
  rw [h.tokenize_eq]
  exact Grammar.beforeEnd_append_ends (.inl rfl) h.no_end

end Scanning

def EndsInNewline (text : String) : Prop :=
  (beforeEnd (tokenize text)).getLast?.map Token.kind = some .newline

theorem exists_reads_newline {a : String} (h : EndsInNewline (a ++ "\n")) :
    ∃ ts, Reads .start a.toList ts ['\n'] := by
  obtain ⟨us, hus⟩ := Reads.exists_of_text .start (a ++ "\n").toList
  rw [EndsInNewline, hus.beforeEnd_tokenize] at h
  rw [String.toList_append] at hus
  rcases hus.cut_newline with ⟨ts, hts, -⟩ | ⟨t, ht, hk⟩
  · exact ⟨ts, hts⟩
  · rw [ht] at h
    exact absurd (Option.some.inj h) hk

theorem tokenize_newline {a : String} {ts : List Token} (h : Reads .start a.toList ts ['\n'])
    (b : String) :
    tokenize (a ++ "\n" ++ b) =
      ts ++ Shape.place (Place.start.afterAll a.toList) (.newline, "\n") ::
        (tokenize b).map (Token.relocate (.shift (a.length + 1) (a.toList.count '\n' + 1))) := by
  have hall : Reads .start a.toList ts ('\n' :: b.toList) := h.before_newline (by simp)
  have hn : Reads (Place.start.afterAll a.toList) ['\n']
      [Shape.place (Place.start.afterAll a.toList) (.newline, "\n")] b.toList :=
    @Reads.cons _ ['\n'] [] _ _ _ .newline .nil
  have htext : (a ++ "\n" ++ b).toList = a.toList ++ '\n' :: b.toList := by simp
  rw [tokenize, Cursor.start, htext, hall.tokens]
  have hrest := hn.tokens
  rw [List.singleton_append] at hrest
  rw [hrest, Place.afterAll_cons, Place.start_after_newline, String.length_toList]
  exact congrArg (ts ++ _ :: ·) (Cursor.tokens_shift _ _ .start b.toList)

theorem parseAll_newline {ts : List Token} {limit : Int} {nodes : List Node} {k : Nat}
    (h : Grammar.Elements none ts nodes k) (hk : Grammar.Fits limit 0 k) {n : Token}
    (hn : n.kind = .newline) (us : List Token) :
    parseAll (ts ++ n :: us) limit = (parseAll us limit).prepend (nodes ++ [.text " "]) := by
  -- a command at the end of `ts` finds no argument here
  have hr : ∀ d, ¬ Grammar.OpensWith d (n :: us) := by
    rintro d ⟨t, ht, hd⟩
    cases ht
    rw [hn] at hd
    cases hd
  have hl : n.leaf? = some (.text " ") := by simp only [Token.leaf?, hn]
  rw [parseAll_eq, parseAll_eq, h.resume hk hr, Grammar.elements_leaf us hl, Parsed.prepend_prepend]

theorem exists_parseAll_newline {a : String} {limit : Int} {document : Node}
    (ha : parse (tokenize a) limit = .ok document) (hn : EndsInNewline (a ++ "\n")) :
    ∃ nodes, document = .group nodes ∧ ∀ b, parseAll (tokenize (a ++ "\n" ++ b)) limit =
      ((parseAll (tokenize b) limit).relocate
        (.shift (a.length + 1) (a.toList.count '\n' + 1))).prepend (nodes ++ [.text " "]) := by
  obtain ⟨ts, hts⟩ := exists_reads_newline hn
  have halone : Reads .start a.toList ts [] := hts.before_newline (by simp)
  obtain ⟨nodes, k, rfl, he, hk⟩ := Grammar.elements_of_parse ha
  rw [halone.beforeEnd_tokenize] at he
  refine ⟨nodes, rfl, fun b => ?_⟩
  rw [tokenize_newline hts, parseAll_newline he hk rfl, parseAll_relocate]

theorem join_renderAll_newline (escaping : Bool) (nodes others : List Node) :
    String.join (Html.renderAll escaping (nodes ++ [.text " "] ++ others)) =
      String.join (Html.renderAll escaping nodes) ++ " " ++
        String.join (Html.renderAll escaping others) := by
  have hspace : Html.render escaping (.text " ") = " " := by
    cases escaping <;> decide
  rw [Html.renderAll_append, Html.renderAll_append, String.join_append, String.join_append,
    Html.renderAll_cons, hspace]
  rfl

theorem compiled_newline {escaping : Bool} {a html : String} (ha : compiled escaping a = .ok html)
    (hn : EndsInNewline (a ++ "\n")) (b : String) :
    (∀ other, compiled escaping b = .ok other →
      compiled escaping (a ++ "\n" ++ b) = .ok (html ++ " " ++ other)) ∧
    ∀ fault, compiled escaping b = .error fault →
      ∃ e, fault = .parse e ∧ parse (tokenize b) nestingLimit = .error e ∧
        compiled escaping (a ++ "\n" ++ b) =
          .error (.parse (e.relocate (.shift (a.length + 1) (a.toList.count '\n' + 1)))) := by
  rw [compiled] at ha
  cases hdoc : parse (tokenize a) nestingLimit with
  | error e =>
    rw [hdoc] at ha
    cases ha
  | ok document =>
    rw [hdoc] at ha
    cases ha
    obtain ⟨nodes, rfl, hjoin⟩ := exists_parseAll_newline hdoc hn
    simp only [compiled, parse, hjoin]
    cases parseAll (tokenize b) nestingLimit with
    | ok others us =>
      refine ⟨?_, fun _ h => by cases h⟩
      rintro _ ⟨⟩
      exact congrArg Except.ok (join_renderAll_newline escaping nodes others)
    | stopped stop =>
      refine ⟨fun _ h => (by cases h), ?_⟩
      rintro _ ⟨⟩
      exact ⟨stop.error, rfl, rfl, rfl⟩

/-- Compilation is compositional at a newline. If the first source can be compiled and the newline
behind it is not taken by math or by a backslash, the results are joined by a space, and a fault of
the second source is the fault of the whole, moved by the characters and the lines in front of it. -/
theorem compileFragment_newline {a : String} {options : Entries} {html : String}
    (hoff : ∀ v, options.find? "inject_math_script" = some v → v.truthy = false)
    (ha : compileFragment (.str a) options = .ok html) (hn : EndsInNewline (a ++ "\n"))
    (b : String) :
    (∀ other, compileFragment (.str b) options = .ok other →
      compileFragment (.str (a ++ "\n" ++ b)) options = .ok (html ++ " " ++ other)) ∧
    ∀ fault, compileFragment (.str b) options = .error fault →
      ∃ (detail expected : String) (offset line column : Int),
        fault = .parse ⟨detail, expected, ⟨offset, some line, some column⟩⟩ ∧
        compileFragment (.str (a ++ "\n" ++ b)) options =
          .error (.parse ⟨detail, expected, ⟨offset + (a.length + 1),
            some (line + (1 + a.toList.count '\n')), some column⟩⟩) := by
  obtain ⟨escaping, hc⟩ := exists_compiled hoff ha
  rw [hc] at ha
  simp only [hc]
  obtain ⟨hok, herror⟩ := compiled_newline ha hn b
  refine ⟨hok, fun fault hfault => ?_⟩
  obtain ⟨e, rfl, hparse, hjoin⟩ := herror fault hfault
  -- an error stands at a token of the source, and those all have a line and a column
  obtain ⟨t, ht, hte⟩ := exists_token_of_parse_error hparse
  obtain ⟨p, hp⟩ := exists_place_of_mem_tokenize ht
  obtain ⟨detail, expected, location⟩ := e
  obtain rfl : location = p.location := hte.symm.trans hp
  refine ⟨detail, expected, p.offset, p.line, p.column, rfl, hjoin.trans ?_⟩
  simp only [ParseError.relocate, Location.shift, Place.location, Option.map_some]
  rw [Int.add_comm 1]
  rfl

theorem compileFragment_default {source : String} {r : Except ParseError String}
    (h : (parse (tokenize source) nestingLimit).map (Html.render true) = r) :
    compileFragment (.str source) [] = r.mapError .parse := by
  have hoptions : Compiler.readOptions (.table [(.str "inject_math_script", .bool false)]) =
      .ok (.ofEntries [(.str "inject_math_script", .bool false)]) := rfl
  rw [← h]
  exact compileSource_eq hoptions rfl source

theorem compileFragment_newline_emphasis :
    EndsInNewline ("x\n\\textbf\x7by\x7d" ++ "\n") ∧
      compileFragment (.str "x\n\\textbf\x7by\x7d") [] = .ok "x <strong>y</strong>" ∧
      compileFragment (.str ("x\n\\textbf\x7by\x7d" ++ "\n" ++ "[z]")) [] =
        .ok ("x <strong>y</strong>" ++ " " ++ "z") ∧
      compileFragment (.str ("x\n\\textbf\x7by\x7d" ++ "\n" ++ "q\n \x7br")) [] =
        .error (.parse ⟨"Expected '\x7d'", "\x7d", ⟨16, some 4, some 2⟩⟩) := by
  have hends : EndsInNewline ("x\n\\textbf\x7by\x7d" ++ "\n") := by
    unfold EndsInNewline
    decide +kernel
  have ha : compileFragment (.str "x\n\\textbf\x7by\x7d") [] = .ok "x <strong>y</strong>" :=
    compileFragment_default (r := .ok _) (by decide +kernel)
  have hb : compileFragment (.str "[z]") [] = .ok "z" :=
    compileFragment_default (r := .ok _) (by decide +kernel)
  have hfails : compileFragment (.str "q\n \x7br") [] =
      .error (.parse ⟨"Expected '\x7d'", "\x7d", ⟨3, some 2, some 2⟩⟩) :=
    compileFragment_default (r := .error _) (by decide +kernel)
  have hoff (v : Value) (h : Entries.find? [] "inject_math_script" = some v) : v.truthy = false := by
    cases h
  refine ⟨hends, ha, (compileFragment_newline hoff ha hends "[z]").1 "z" hb, ?_⟩
  obtain ⟨detail, expected, offset, line, column, hfault, hjoin⟩ :=
    (compileFragment_newline hoff ha hends "q\n \x7br").2 _ hfails
  cases hfault
  exact hjoin

end TexHtml
