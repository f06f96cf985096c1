import TexHtml.Proofs.Visiting

/-!
The attribute that names the author. A reader ends it at the first quote, and text brings in none
since it is escaped. But the argument is rendered like any other: math, a page heading, a named
division, an author inside the author and the command `\"` write quotes of their own, and with one
of these the attribute ends too early.
-/

namespace TexHtml.Html

open Shape

def attributeValue? : List Char → Option (List Char × List Char)
  | [] => none
  | c :: cs => if c = '"' then some ([], cs) else (attributeValue? cs).map fun p => (c :: p.1, p.2)

theorem attributeValue?_append {value : List Char} (h : '"' ∉ value) (rest : List Char) :
    attributeValue? (value ++ '"' :: rest) = some (value, rest) := by
  induction value with
  | nil => rfl
  | cons c value ih =>
    obtain ⟨hc, hvalue⟩ := List.ne_and_not_mem_of_not_mem_cons h
    rw [List.cons_append, attributeValue?, if_neg hc.symm, ih hvalue]
    rfl

/-- A command that writes a quote whatever its argument is rendered as. Of the argument only the
literal text matters, and whether there is one. -/
def quotesItself (name : String) (literal : Option String) : Bool :=
  name ∈ ["documentclass", "maketitle", "\""] ||
    literal.any fun environment =>
      name = "author" || name = "begin" && environment ∉ ["document", "itemize", "enumerate"]

def writesQuote : Node → Bool
  | .math _ _ => true
  | .command name required _ => quotesItself name (required.head?.map Node.literalText)
  | _ => false

section Quotes

theorem quote_mem_math (content : String) (display : Bool) : '"' ∈ (math content display).toList := by
  cases display with
  | true =>
    have hfront : '"' ∈ "<div class=\"math-display\">$$".toList := by decide
    rw [math, if_pos rfl, String.toList_append, String.toList_append]
    exact List.mem_append_left _ (List.mem_append_left _ hfront)
  | false =>
    have hfront : '"' ∈ "<span class=\"math-inline\">$".toList := by decide
    rw [math, if_neg Bool.false_ne_true, String.toList_append, String.toList_append]
    exact List.mem_append_left _ (List.mem_append_left _ hfront)

theorem quote_mem_name_iff {name : String} (h : Proper (.command, name)) :
    '"' ∈ name.toList ↔ name = "\"" := by
  constructor
  · intro hq
    have hletter : Text.isLetter '"' = false := by decide
    rcases h with hword | rfl | ⟨c, rfl, -, -⟩ | rfl
    · rw [hword.2 _ hq] at hletter
      cases hletter
    · exact absurd hq (by decide)
    · rw [String.toList_ofList, List.mem_singleton] at hq
      rw [← hq]
    · exact absurd hq (by decide)
  · rintro rfl
    decide

theorem quote_mem_unknownCommand_iff {name : String} (h : Proper (.command, name)) :
    '"' ∈ (unknownCommand name).toList ↔ name = "\"" := by
  have hfront : '"' ∉ "<!-- Unknown command: ".toList := by decide
  have hback : '"' ∉ " -->".toList := by decide
  have hparts : (unknownCommand name).toList =
      "<!-- Unknown command: ".toList ++ name.toList ++ " -->".toList :=
    (String.toList_append).trans (congrArg (· ++ _) String.toList_append)
  rw [hparts, List.mem_append, List.mem_append, or_iff_left hback, or_iff_right hfront]
  exact quote_mem_name_iff h

theorem quote_mem_beginEnvironment_iff (name : String) :
    '"' ∈ (beginEnvironment name).toList ↔ name ∉ ["document", "itemize", "enumerate"] := by
  rw [beginEnvironment]
  split
  · rename_i tags htags
    have htable : ∀ e ∈ openingTags, '"' ∈ e.2.toList ↔ e.1 ∉ ["document", "itemize", "enumerate"] := by
      decide
    exact htable (name, tags) (mem_of_lookup htags)
  · rename_i hnone
    have hquote : '"' ∈ "<div class=\"".toList := by decide
    have htable : ∀ e ∈ ["document", "itemize", "enumerate"], openingTags.lookup e ≠ none := by
      decide
    refine iff_of_true ?_ fun hname => htable name hname hnone
    simp only [String.toList_append, List.mem_append]
    exact .inl (.inl hquote)

theorem quote_not_mem_endEnvironment (name : String) : '"' ∉ (endEnvironment name).toList := by
  have htable : ∀ e ∈ closingTags, '"' ∉ e.2.toList := by decide
  rw [endEnvironment]
  cases h : closingTags.lookup name with
  | none => decide
  | some tags => exact htable (name, tags) (mem_of_lookup h)

theorem Form.quote_mem_iff {name : String} {f : Option (String × String) → String} (h : Form name f)
    (hp : Proper (.command, name)) (argument : Option (String × String)) :
    '"' ∈ (f argument).toList ↔ quotesItself name (argument.map Prod.snd) ∨
      showsArgument name ∧ ∃ a ∈ argument, '"' ∈ a.1.toList := by
  cases h with
  | @fixed _ html h =>
    have htable : ∀ e ∈ fixedCommands, ('"' ∈ e.2.toList ↔ e.1 ∈ ["documentclass", "maketitle", "\""]) ∧
        e.1 ≠ "author" ∧ e.1 ≠ "begin" ∧ showsArgument e.1 = false := by decide
    obtain ⟨hquote, hauthor, hbegin, hshows⟩ := htable (name, html) h
    simp [quotesItself, hquote, hauthor, hbegin, hshows]
  | @wrapping _ opening closing h =>
    have htable : ∀ e ∈ wrappingCommands, '"' ∉ e.2.1.toList ∧ '"' ∉ e.2.2.toList ∧
        e.1 ∉ ["documentclass", "maketitle", "\""] ∧ e.1 ≠ "author" ∧ e.1 ≠ "begin" := by
      decide
    obtain ⟨hopening, hclosing, hfixed, hauthor, hbegin⟩ := htable (name, opening, closing) h
    have hshows : showsArgument name := by simp [showsArgument, wraps_of_mem h]
    have hitself (literal : Option String) : quotesItself name literal = false := by
      simp only [quotesItself, hfixed, hauthor, hbegin]
      cases literal <;> rfl
    cases argument with
    | none => simp [hitself]
    | some a => simp [hitself, hshows, hopening, hclosing]
  | author =>
    cases argument with
    | none => simp [quotesItself]
    | some a => simp [quotesItself]
  | opening =>
    have hshows : showsArgument "begin" = false := by decide
    cases argument with
    | none => simp [quotesItself]
    | some a => simp [quotesItself, hshows, quote_mem_beginEnvironment_iff]
  | closing =>
    have hshows : showsArgument "end" = false := by decide
    cases argument with
    | none => simp [quotesItself]
    | some a => simp [quotesItself, hshows, quote_not_mem_endEnvironment]
  | unknown h =>
    have hknown : ∀ e ∈ ["documentclass", "maketitle", "author", "begin"], isKnownCommand e := by
      decide
    have hne (e : String) (he : e ∈ ["documentclass", "maketitle", "author", "begin"]) :
        name ≠ e := by
      rintro rfl
      rw [hknown name he] at h
      cases h
    have hwraps : wraps name = false := by
      simp only [isKnownCommand, Bool.or_eq_false_iff] at h
      exact h.1.2
    simp [quote_mem_unknownCommand_iff hp, quotesItself, showsArgument, hwraps,
      hne "documentclass", hne "maketitle", hne "author", hne "begin"]

theorem quote_mem_join_renderAll_iff {nodes : List Node}
    (h : ∀ n ∈ nodes, '"' ∈ (render true n).toList ↔ ∃ m ∈ visited n, writesQuote m) :
    '"' ∈ (String.join (renderAll true nodes)).toList ↔ ∃ m ∈ visitedAll nodes, writesQuote m := by
  induction nodes with
  | nil => simp [visitedAll]
  | cons n rest ih =>
    obtain ⟨hn, hrest⟩ := List.forall_mem_cons.mp h
    rw [renderAll_cons, String.join_cons, String.toList_append, List.mem_append, hn, ih hrest,
      visitedAll]
    simp only [List.mem_append, or_and_right, exists_or]

theorem quote_mem_render_iff {n : Node} (hs : ∀ m ∈ visited n, m.Scanned) :
    '"' ∈ (render true n).toList ↔ ∃ m ∈ visited n, writesQuote m := by
  induction n using Node.induction with
  | text content =>
    have hescaped := not_mem_escape (x := '"') (by simp) content
    simpa [visited, writesQuote] using hescaped
  | math content display => simpa [visited, writesQuote] using quote_mem_math content display
  | foreign typeName kind => exact (hs _ (mem_visited_self _)).elim
  | group children ih =>
    have hbelow := quote_mem_join_renderAll_iff fun n hn =>
      ih n hn fun m hm => hs m (visited_subset_group hn hm)
    rw [render_group, hbelow]
    simp [visited, writesQuote]
  | command name required optional ihr iho =>
    have hproper : Proper (.command, name) := hs _ (mem_visited_self _)
    have hliteral : (renderFirst true required).map Prod.snd =
        required.head?.map Node.literalText := by
      cases required <;> rfl
    have hargument (hshows : showsArgument name) :
        (∃ a ∈ renderFirst true required, '"' ∈ a.1.toList) ↔
          ∃ m ∈ visitedFirst required, writesQuote m := by
      cases required with
      | nil => simp [visitedFirst]
      | cons argument others =>
        have hsub := visited_subset_command hshows argument others optional
        have hquote := ihr argument List.mem_cons_self fun m hm => hs m (hsub hm)
        simpa [visitedFirst] using hquote
    have hself : writesQuote (.command name required optional) =
        quotesItself name (required.head?.map Node.literalText) := rfl
    rw [render_command, (form name).quote_mem_iff hproper, hliteral, ← hself, visited]
    by_cases hshows : showsArgument name
    · rw [hargument hshows, if_pos hshows, and_iff_right hshows]
      simp only [List.mem_cons, or_and_right, exists_or, exists_eq_left]
    · rw [if_neg hshows, or_iff_left fun h => hshows h.1]
      simp

end Quotes

section Place

variable (escaping : Bool)

theorem exists_around {name : String} (h : showsArgument name) :
    ∃ opening closing, ∀ html literal,
      command name (some (html, literal)) = opening ++ html ++ closing := by
  have hform := form name
  generalize command name = f at hform
  cases hform with
  | @fixed _ html hfixed =>
    have htable : ∀ e ∈ fixedCommands, showsArgument e.1 = false := by decide
    rw [htable (name, html) hfixed] at h
    cases h
  | @wrapping _ opening closing _ => exact ⟨opening, closing, fun _ _ => rfl⟩
  | author => exact ⟨_, _, fun _ _ => rfl⟩
  | opening => exact absurd h (by decide)
  | closing => exact absurd h (by decide)
  | unknown hunknown =>
    simp only [isKnownCommand, Bool.or_eq_false_iff] at hunknown
    have hauthor : name = "author" := by simpa [showsArgument, wraps, hunknown.1.2] using h
    rw [hauthor] at hunknown
    exact absurd hunknown.2 (by decide)

theorem exists_join_around {nodes : List Node} {n : Node} (h : n ∈ nodes) :
    ∃ front back, String.join (renderAll escaping nodes) = front ++ render escaping n ++ back := by
  obtain ⟨before, behind, rfl⟩ := List.append_of_mem h
  refine ⟨String.join (renderAll escaping before), String.join (renderAll escaping behind), ?_⟩
  rw [renderAll_append, renderAll_cons, String.join_append, String.join_cons, String.append_assoc]

theorem exists_render_around {m n : Node} (h : m ∈ visited n) :
    ∃ front back, render escaping n = front ++ render escaping m ++ back := by
  have hself (n : Node) : ∃ front back, render escaping n = front ++ render escaping n ++ back :=
    ⟨"", "", by rw [String.empty_append, String.append_empty]⟩
  induction n using Node.induction with
  | text content => exact List.mem_singleton.mp h ▸ hself _
  | math content display => exact List.mem_singleton.mp h ▸ hself _
  | foreign typeName kind => exact List.mem_singleton.mp h ▸ hself _
  | group children ih =>
    rcases List.mem_cons.mp h with rfl | h
    · exact hself _
    obtain ⟨n, hn, hm⟩ := mem_visitedAll.mp h
    obtain ⟨front, back, hinside⟩ := ih n hn hm
    obtain ⟨before, behind, haround⟩ := exists_join_around escaping hn
    refine ⟨before ++ front, back ++ behind, ?_⟩
    rw [render_group, haround, hinside]
    simp only [String.append_assoc]
  | command name required optional ihr iho =>
    rcases List.mem_cons.mp h with rfl | h
    · exact hself _
    split at h
    · rename_i hshows
      cases required with
      | nil => exact absurd h List.not_mem_nil
      | cons argument others =>
        obtain ⟨front, back, hinside⟩ := ihr argument List.mem_cons_self h
        obtain ⟨opening, closing, haround⟩ := exists_around hshows
        refine ⟨opening ++ front, back ++ closing, ?_⟩
        rw [render_command, renderFirst_cons, haround, hinside]
        simp only [String.append_assoc]
    · exact absurd h List.not_mem_nil

end Place

def authorArgument? : Node → Option Node
  | .command name (argument :: _) _ => if name = "author" then some argument else none
  | _ => none

theorem authorArgument?_eq_some {n argument : Node} (h : authorArgument? n = some argument) :
    ∃ others optional, n = .command "author" (argument :: others) optional := by
  cases n with
  | command name required optional =>
    cases required with
    | nil => cases h
    | cons first others =>
      rw [authorArgument?] at h
      obtain ⟨rfl, hfirst⟩ := Option.ite_none_right_eq_some.mp h
      exact ⟨others, optional, by rw [Option.some.inj hfirst]⟩
  | _ => cases h

/-- The attribute for an author ends where it was meant to end exactly if nothing in the argument
writes a quote; else a reader ends it at the first quote inside. -/
theorem author_attribute_ends {source : String} {limit : Int} {document : Node}
    (hparse : parse (tokenize source) limit = .ok document) {n argument : Node}
    (hn : n ∈ visited document) (hauthor : authorArgument? n = some argument) :
    ∃ front back, render true document =
        front ++ "<meta name=\"author\" content=\"" ++ render true argument ++ "\">\n" ++ back ∧
      ('"' ∉ (render true argument).toList ↔ ∀ m ∈ visited argument, writesQuote m = false) ∧
      ((∀ m ∈ visited argument, writesQuote m = false) →
        attributeValue? (render true argument ++ "\">\n" ++ back).toList =
          some ((render true argument).toList, (">\n" ++ back).toList)) ∧
      ((∃ m ∈ visited argument, writesQuote m) →
        ∃ value lost, render true argument = value ++ "\"" ++ lost ∧
          attributeValue? (render true argument ++ "\">\n" ++ back).toList =
            some (value.toList, (lost ++ "\">\n" ++ back).toList)) := by
  obtain ⟨others, optional, rfl⟩ := authorArgument?_eq_some hauthor
  obtain ⟨front, back, hplace⟩ := exists_render_around true hn
  have hmeta : render true (.command "author" (argument :: others) optional) =
      "<meta name=\"author\" content=\"" ++ render true argument ++ "\">\n" := rfl
  have hscanned (m : Node) (hm : m ∈ visited argument) : m.Scanned := by
    have hshows : showsArgument "author" := by decide
    have hinside := visited_subset_command hshows argument others optional hm
    exact scanned_of_parse hparse m
      (visited_subset_flatten document (visited_subset_of_mem hn hinside))
  have hquote := quote_mem_render_iff hscanned
  have hclosing : ("\">\n" ++ back).toList = '"' :: (">\n" ++ back).toList := by
    rw [String.toList_append, String.toList_append]
    rfl
  refine ⟨front, back, ?_, ?_, fun hnone => ?_, fun hsome => ?_⟩
  · rw [hplace, hmeta]
    simp only [String.append_assoc]
  · rw [hquote]
    simp
  · have hfree : '"' ∉ (render true argument).toList := by
      rw [hquote]
      rintro ⟨m, hm, hwrites⟩
      rw [hnone m hm] at hwrites
      cases hwrites
    rw [String.append_assoc, String.toList_append, hclosing, attributeValue?_append hfree]
  · obtain ⟨value, lost, hsplit, hfree⟩ := List.eq_append_cons_of_mem (hquote.mpr hsome)
    refine ⟨String.ofList value, String.ofList lost, ?_, ?_⟩
    · apply String.toList_inj.mp
      simp [hsplit]
    · rw [String.append_assoc, String.toList_append, hsplit, List.append_assoc, List.cons_append,
        attributeValue?_append hfree]
      simp [String.toList_append]

theorem exists_author {source : String} {β : Type} {f : Node → Node → β} {b : β}
    (h : (parse (tokenize source) nestingLimit).map (fun d =>
      ((visited d).filterMap authorArgument?).map (f d)) = .ok [b]) :
    ∃ document n argument, parse (tokenize source) nestingLimit = .ok document ∧
      n ∈ visited document ∧ authorArgument? n = some argument ∧ f document argument = b := by
  obtain ⟨document, hparse, hfound⟩ := exists_ok_of_map_eq_ok h
  obtain ⟨argument, harguments, hb⟩ := List.map_eq_singleton_iff.mp hfound
  have hmem : argument ∈ (visited document).filterMap authorArgument? := by simp [harguments]
  obtain ⟨n, hn, hauthor⟩ := List.mem_filterMap.mp hmem
  exact ⟨document, n, argument, hparse, hn, hauthor, hb⟩

def quotedAuthor : String := "\\title\x7bOn \\author\x7bAnn \"A\" <\\textit\x7bLee\x7d>\x7d\x7d"

theorem author_attribute_ends_quoted :
    ∃ document n argument back, parse (tokenize quotedAuthor) nestingLimit = .ok document ∧
      n ∈ visited document ∧ authorArgument? n = some argument ∧
      (∀ m ∈ visited argument, writesQuote m = false) ∧
      render true argument = "Ann &quot;A&quot; &lt;<em>Lee</em>&gt;" ∧
      attributeValue? (render true argument ++ "\">\n" ++ back).toList =
        some ((render true argument).toList, (">\n" ++ back).toList) := by
  have hread : (parse (tokenize quotedAuthor) nestingLimit).map (fun d =>
      ((visited d).filterMap authorArgument?).map fun a =>
        ((visited a).all fun m => !writesQuote m, render true a)) =
      .ok [(true, "Ann &quot;A&quot; &lt;<em>Lee</em>&gt;")] := by decide +kernel
  obtain ⟨document, n, argument, hparse, hn, hauthor, hfacts⟩ := exists_author hread
  obtain ⟨hall, hhtml⟩ := Prod.mk.inj hfacts
  have hnone : ∀ m ∈ visited argument, writesQuote m = false := by
    intro m hm
    have hm' := List.all_eq_true.mp hall m hm
    rwa [Bool.not_eq_true'] at hm'
  obtain ⟨-, back, -, -, hends, -⟩ := author_attribute_ends hparse hn hauthor
  exact ⟨document, n, argument, back, hparse, hn, hauthor, hnone, hhtml, hends hnone⟩

def accentedAuthor : String := "\\author\x7bJ\\\"org\x7d"

/-- The attribute for this author ends inside the comment for the accent. -/
theorem author_attribute_cut_short :
    ∃ document n argument, parse (tokenize accentedAuthor) nestingLimit = .ok document ∧
      n ∈ visited document ∧ authorArgument? n = some argument ∧
      '"' ∈ (render true argument).toList ∧
      render true document = "<meta name=\"author\" content=\"" ++ render true argument ++ "\">\n" ∧
      attributeValue? (render true argument ++ "\">\n").toList =
        some ("J<!-- Unknown command: ".toList, " -->org\">\n".toList) := by
  have hread : (parse (tokenize accentedAuthor) nestingLimit).map (fun d =>
      ((visited d).filterMap authorArgument?).map fun a =>
        ((render true a).toList.contains '"',
          render true d = "<meta name=\"author\" content=\"" ++ render true a ++ "\">\n" &&
            attributeValue? (render true a ++ "\">\n").toList =
              some ("J<!-- Unknown command: ".toList, " -->org\">\n".toList))) =
      .ok [(true, true)] := by decide +kernel
  obtain ⟨document, n, argument, hparse, hn, hauthor, hfacts⟩ := exists_author hread
  obtain ⟨hquote, hrest⟩ := Prod.mk.inj hfacts
  rw [Bool.and_eq_true, decide_eq_true_eq, decide_eq_true_eq] at hrest
  exact ⟨document, n, argument, hparse, hn, hauthor, List.contains_iff_mem.mp hquote, hrest⟩

end TexHtml.Html
