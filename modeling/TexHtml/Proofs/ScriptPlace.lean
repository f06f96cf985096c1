import TexHtml.Proofs.Fragment
import TexHtml.Proofs.Markup
import TexHtml.Proofs.Occurrence
import TexHtml.Proofs.Visiting

namespace TexHtml.Html

open Shape

def headCloses (html : String) : Nat := occurrences headClose.toList html.toList

theorem headClose_ne_nil : headClose.toList ≠ [] := by decide

theorem headCloses_eq_zero_iff {html : String} :
    headCloses html = 0 ↔ ¬ headClose.toList <:+: html.toList :=
  occurrences_eq_zero_iff headClose_ne_nil

theorem headCloses_of_not_mem {c : Char} (hc : c ∈ headClose.toList) {html : String}
    (h : c ∉ html.toList) : headCloses html = 0 :=
  headCloses_eq_zero_iff.mpr fun hi => h (hi.subset hc)

-- A part of the mark that has its beginning and not its end has opened a tag and not closed it.
theorem headCloses_append {s : String} (h : Closed s) (t : String) :
    headCloses (s ++ t) = headCloses s + headCloses t := by
  rw [headCloses, String.toList_append]
  apply occurrences_append
  rintro p q hpq hp hq ⟨front, hfront⟩ -
  have hprefix : p <+: "</head".toList := by
    have hlast : headClose.toList = "</head".toList ++ ['>'] := by decide
    rcases List.prefix_concat_iff.mp (hlast ▸ (⟨q, hpq.symm⟩ : p <+: headClose.toList)) with he | hp
    · rw [hlast, he] at hpq
      exact absurd (List.self_eq_append_right.mp hpq) hq
    · exact hp
  obtain ⟨c, p', rfl⟩ := List.exists_cons_of_ne_nil hp
  obtain ⟨rfl, hinside⟩ : c = '<' ∧ p' <+: "/head".toList := List.cons_prefix_cons.mp hprefix
  have hopen : openAfter false s.toList = true := by
    rw [← hfront, openAfter_append, openAfter_cons, openStep, if_pos rfl]
    apply openAfter_of_not_mem
    · intro hx
      exact absurd (hinside.subset hx) (by decide)
    · intro hx
      exact absurd (hinside.subset hx) (by decide)
  rw [h] at hopen
  cases hopen

theorem headCloses_append_of_head (s : String) {t : String}
    (h : t.toList.head?.all (· ∉ headClose.toList)) :
    headCloses (s ++ t) = headCloses s + headCloses t := by
  rw [headCloses, String.toList_append]
  apply occurrences_append_of_head
  intro d hd
  rw [Option.mem_def.mp hd] at h
  exact of_decide_eq_true h

theorem headCloses_append_of_last {s : String}
    (h : s.toList.getLast?.all (· ∉ headClose.toList)) (t : String) :
    headCloses (s ++ t) = headCloses s + headCloses t := by
  rw [headCloses, String.toList_append]
  apply occurrences_append_of_last
  intro c hc
  rw [Option.mem_def.mp hc] at h
  exact of_decide_eq_true h

theorem headCloses_escape (s : String) : headCloses (escape s) = 0 :=
  headCloses_of_not_mem (by decide) (not_mem_escape (x := '<') (by simp) s)

theorem headCloses_math {content : String} (h : headCloses content = 0) (display : Bool) :
    headCloses (math content display) = 0 := by
  cases display with
  | true =>
    rw [math, if_pos rfl, headCloses_append_of_head _ (by decide),
      headCloses_append_of_last (by decide), h]
    decide
  | false =>
    rw [math, if_neg Bool.false_ne_true, headCloses_append_of_head _ (by decide),
      headCloses_append_of_last (by decide), h]
    decide

theorem headCloses_unknownCommand {name : String} (h : Proper (.command, name)) :
    headCloses (unknownCommand name) = 0 := by
  have hcomment : headCloses (" Unknown command: " ++ name ++ " ") = 0 :=
    headCloses_eq_zero_iff.mpr (@Proper.not_infix_comment name h _ '<' '/' (by decide) (by decide)
      (by decide) (by decide) (by decide) (by decide))
  rw [unknownCommand_eq, headCloses_append_of_head _ (by decide),
    headCloses_append_of_last (by decide), hcomment]
  decide

theorem headCloses_beginEnvironment (name : String) :
    headCloses (beginEnvironment name) = if name = "document" then 1 else 0 := by
  by_cases hd : name = "document"
  · subst hd
    decide
  rw [if_neg hd, beginEnvironment]
  split
  · rename_i html hhtml
    have htable : ∀ e ∈ openingTags, e.1 ≠ "document" → headCloses e.2 = 0 := by decide
    exact htable (name, html) (mem_of_lookup hhtml) hd
  · rw [headCloses_append_of_head _ (by decide), headCloses_append_of_last (by decide),
      headCloses_escape]
    decide

theorem headCloses_endEnvironment (name : String) : headCloses (endEnvironment name) = 0 := by
  have htable : ∀ e ∈ closingTags, headCloses e.2 = 0 := by decide
  rw [endEnvironment]
  cases h : closingTags.lookup name with
  | none => decide
  | some html => exact htable (name, html) (mem_of_lookup h)

theorem Form.headCloses_eq {name : String} {f : Option (String × String) → String} (h : Form name f)
    (hp : Proper (.command, name)) {argument : Option (String × String)}
    (ha : ∀ a ∈ argument, Closed a.1) :
    headCloses (f argument) =
      (if name = "begin" ∧ argument.map Prod.snd = some "document" then 1 else 0) +
        if showsArgument name then argument.elim 0 fun a => headCloses a.1 else 0 := by
  have hempty : headCloses "" = 0 := rfl
  cases h with
  | @fixed _ html h =>
    have htable : ∀ e ∈ fixedCommands, headCloses e.2 = 0 ∧ e.1 ≠ "begin" ∧
        showsArgument e.1 = false := by decide
    obtain ⟨hnone, hbegin, hshows⟩ := htable (name, html) h
    simp [hnone, hbegin, hshows]
  | @wrapping _ opening closing h =>
    have htable : ∀ e ∈ wrappingCommands, headCloses e.2.1 = 0 ∧ headCloses e.2.2 = 0 ∧
        e.1 ≠ "begin" := by decide
    obtain ⟨hfront, hback, hbegin⟩ := htable (name, opening, closing) h
    cases argument with
    | none => simp [hempty, hbegin]
    | some a =>
      obtain ⟨hopening, -⟩ := closed_wrapping h
      simp only [Option.elim_some]
      rw [headCloses_append (hopening.append (ha a rfl)), headCloses_append hopening, hfront, hback]
      simp [showsArgument, hbegin, wraps_of_mem h]
  | author =>
    cases argument with
    | none => simp [hempty]
    | some a =>
      have hfront : headCloses "<meta name=\"author\" content=\"" = 0 := by decide
      have hback : headCloses "\">\n" = 0 := by decide
      simp only [Option.elim_some]
      rw [headCloses_append_of_head _ (by decide), headCloses_append_of_last (by decide), hfront,
        hback]
      simp [showsArgument]
  | opening =>
    cases argument with
    | none => simp [hempty]
    | some a =>
      have hshows : showsArgument "begin" = false := by decide
      simp [headCloses_beginEnvironment, hshows]
  | closing =>
    cases argument with
    | none => simp [hempty]
    | some a =>
      have hshows : showsArgument "end" = false := by decide
      simp [headCloses_endEnvironment, hshows]
  | unknown h =>
    have hbegin : name ≠ "begin" := by
      rintro rfl
      exact absurd h (by decide)
    have hauthor : name ≠ "author" := by
      rintro rfl
      exact absurd h (by decide)
    have hwraps : wraps name = false := by
      simp only [isKnownCommand, Bool.or_eq_false_iff] at h
      exact h.1.2
    simp [headCloses_unknownCommand hp, showsArgument, hbegin, hauthor, hwraps]

def opensDocument (n : Node) : Bool := boundary? n = some (.opening "document")

theorem headCloses_join_renderAll {nodes : List Node}
    (h : ∀ n ∈ nodes, headCloses (render true n) = (visited n).countP opensDocument) :
    headCloses (String.join (renderAll true nodes)) = (visitedAll nodes).countP opensDocument := by
  induction nodes with
  | nil => rfl
  | cons n rest ih =>
    obtain ⟨hn, hrest⟩ := List.forall_mem_cons.mp h
    rw [renderAll_cons, String.join_cons, headCloses_append (closed_render n), hn, ih hrest, visitedAll,
      List.countP_append]

theorem headCloses_render {n : Node} (hs : ∀ m ∈ visited n, m.Scanned)
    (hm : ∀ content display, .math content display ∈ visited n →
      ¬ headClose.toList <:+: content.toList) :
    headCloses (render true n) = (visited n).countP opensDocument := by
  induction n using Node.induction with
  | text content => exact headCloses_escape content
  | math content display =>
    have hcontent := hm content display (mem_visited_self _)
    exact headCloses_math (headCloses_eq_zero_iff.mpr hcontent) display
  | foreign typeName kind => exact (hs _ (mem_visited_self _)).elim
  | group children ih =>
    have hself : opensDocument (.group children) = false := rfl
    rw [visited, List.countP_cons_of_neg (by simp [hself]), render_group]
    apply headCloses_join_renderAll
    intro m hmem
    have hsub := visited_subset_group hmem
    exact ih m hmem (fun k hk => hs k (hsub hk)) fun content display hk => hm content display (hsub hk)
  | command name required optional ihr iho =>
    have hproper : Proper (.command, name) := hs _ (mem_visited_self _)
    have hself : opensDocument (.command name required optional) ↔
        name = "begin" ∧ (renderFirst true required).map Prod.snd = some "document" := by
      cases required with
      | nil => simp [opensDocument, boundary?]
      | cons argument others =>
        by_cases hb : name = "begin"
        · simp [opensDocument, boundary?, hb]
        · by_cases he : name = "end" <;> simp [opensDocument, boundary?, hb, he]
    have hbelow (hshows : showsArgument name) :
        ((renderFirst true required).elim 0 fun a => headCloses a.1) =
          (visitedFirst required).countP opensDocument := by
      cases required with
      | nil => rfl
      | cons argument others =>
        have hsub := visited_subset_command hshows argument others optional
        exact ihr argument List.mem_cons_self (fun k hk => hs k (hsub hk))
          fun content display hk => hm content display (hsub hk)
    rw [render_command, (form name).headCloses_eq hproper (closed_renderFirst required), visited,
      List.countP_cons, Nat.add_comm]
    simp only [hself]
    by_cases hshows : showsArgument name
    · rw [if_pos hshows, if_pos hshows, hbelow hshows]
    · rw [if_neg hshows, if_neg hshows, List.countP_nil]

theorem exists_injectScript (script html : String) :
    ∃ front back, injectScript script html = front ++ script ++ back ∧ front ++ back = html ∧
      (headCloses html = 0 → front = "") ∧
      (headCloses html ≠ 0 →
        headClose.toList <+: back.toList ∧ ¬ headClose.toList <:+: front.toList) := by
  by_cases hi : headClose.toList <:+: html.toList
  · obtain ⟨p, q, hpq, hq, hp, hinsert⟩ :=
      exists_insertBefore?_of_infix headClose_ne_nil script.toList hi
    refine ⟨String.ofList p, String.ofList q, ?_, ?_, ?_, ?_⟩
    · rw [injectScript, hinsert]
      simp [String.ofList_append, String.append_assoc]
    · rw [← String.ofList_append, ← hpq, String.ofList_toList]
    · intro hzero
      exact absurd hi (headCloses_eq_zero_iff.mp hzero)
    · intro _
      rw [String.toList_ofList, String.toList_ofList]
      exact ⟨hq, hp⟩
  · refine ⟨"", html, ?_, String.empty_append, fun _ => rfl, ?_⟩
    · rw [injectScript, insertBefore?_of_not_infix headClose_ne_nil _ hi, String.empty_append]
    · intro hzero
      exact absurd (headCloses_eq_zero_iff.mpr hi) hzero

/-- The script stands before the first end of the head, or in front of everything if no head ends,
and nothing but the environment `document` decides where that is. -/
theorem script_before_head {source : String} {document : Node} {options : Entries} {o : Options}
    (hparse : parse (tokenize source) nestingLimit = .ok document)
    (hread : Compiler.readOptions (.table options) = .ok o) (hescaping : o.escaping = true)
    (hinjecting : o.injecting = true) (hunset : options.find? "inject_math_script" = none)
    (hmath : ∀ content display, .math content display ∈ visited document →
      ¬ headClose.toList <:+: content.toList) (script : String) :
    ∃ html front back, compileFragment (.str source) options = .ok html ∧
      headCloses html = (visited document).countP opensDocument ∧
      compileSource (.str source) (options.insert (.str "math_script") (.str script)) =
        .ok (front ++ script ++ back) ∧ front ++ back = html ∧
      ((∀ n ∈ visited document, opensDocument n = false) → front = "") ∧
      ((∃ n ∈ visited document, opensDocument n) →
        headClose.toList <+: back.toList ∧ ¬ headClose.toList <:+: front.toList) := by
  have hcount : headCloses (render true document) = (visited document).countP opensDocument := by
    apply headCloses_render _ hmath
    exact fun n hn => scanned_of_parse hparse n (visited_subset_flatten document hn)
  have hfragment : compileFragment (.str source) options = .ok (render true document) := by
    rw [compileFragment_eq (by simp [hunset]) hread, hescaping, compiled, hparse]
    rfl
  have hpage : renderDocument { o with script := .str script } document =
      .ok (injectScript script (render true document)) := by
    simp [renderDocument, hinjecting, hescaping]
  obtain ⟨front, back, hinject, hsplit, hnone, hsome⟩ :=
    exists_injectScript script (render true document)
  rw [hcount] at hnone hsome
  refine ⟨render true document, front, back, hfragment, hcount, ?_, hsplit, ?_, ?_⟩
  · rw [compileSource_of_parse (Compiler.readOptions_insert_script hread (.str script)) hparse, hpage,
      hinject]
    rfl
  · intro hall
    apply hnone
    rw [List.countP_eq_zero]
    intro n hn
    simp [hall n hn]
  · rintro ⟨n, hn, hopens⟩
    apply hsome
    rw [Ne, List.countP_eq_zero]
    intro hall
    exact hall n hn hopens

def headlessMath : Node → Bool
  | .math content _ => headCloses content = 0
  | _ => true

def headSource : String :=
  "\\author\x7b</head>\x7d\\<\\begin\x7b</head>\x7d$</head$>\\begin\x7bdocument\x7d/head>"

def headHtml : String :=
  "<meta name=\"author\" content=\"&lt;/head&gt;\">\n<!-- Unknown command: < -->" ++
    "<div class=\"&lt;/head&gt;\">\n<span class=\"math-inline\">$</head$</span>&gt;" ++
    "</head>\n<body>\n/head&gt;"

theorem script_before_head_scattered :
    ∃ front back, front ++ back = headHtml ∧ headCloses headHtml = 1 ∧
      compileFragment (.str headSource) [] = .ok headHtml ∧
      compileSource (.str headSource) [(.str "math_script", .str "M")] = .ok (front ++ "M" ++ back) ∧
      headClose.toList <+: back.toList ∧ ¬ headClose.toList <:+: front.toList := by
  have hvisited : (parse (tokenize headSource) nestingLimit).map (fun d =>
      ((visited d).all headlessMath, (visited d).countP opensDocument, render true d)) =
        .ok (true, 1, headHtml) := by decide +kernel
  obtain ⟨document, hparse, hfacts⟩ := exists_ok_of_map_eq_ok hvisited
  obtain ⟨hheadless, hrest⟩ := Prod.mk.inj hfacts
  obtain ⟨hcount, hhtml⟩ := Prod.mk.inj hrest
  have hmath : ∀ content display, .math content display ∈ visited document →
      ¬ headClose.toList <:+: content.toList := by
    intro content display hm
    have hzero := List.all_eq_true.mp hheadless _ hm
    exact headCloses_eq_zero_iff.mp (of_decide_eq_true hzero)
  have hread : Compiler.readOptions (.table []) = .ok .default := rfl
  obtain ⟨html, front, back, hfragment, hcloses, hpage, hsplit, -, hsome⟩ :=
    script_before_head hparse hread rfl rfl rfl hmath "M"
  have he : html = headHtml := by
    rw [compileFragment_eq (by rintro v ⟨⟩) hread, compiled, hparse] at hfragment
    rw [← hhtml]
    exact (Except.ok.inj hfragment).symm
  subst he
  obtain ⟨hback, hfront⟩ := hsome (List.countP_pos_iff.mp (by omega))
  exact ⟨front, back, hsplit, hcloses.trans hcount, hfragment, hpage, hback, hfront⟩

end TexHtml.Html
