import TexHtml.Proofs.Fragment
import TexHtml.Proofs.Markup
import TexHtml.Proofs.Visiting

namespace TexHtml.Html

open Shape

def bareElements : List String := ["title", "h1", "h2", "h3", "strong", "em", "code", "ul", "ol"]

def IsAttribute (a : String × String) : Prop :=
  a.1 ≠ "" ∧ a.1.toList.all Char.isLower ∧ a.2.toList.all (· ∉ ['"', '<', '>'])

instance (a : String × String) : Decidable (IsAttribute a) := inferInstanceAs (Decidable (_ ∧ _))

def writeAttribute (a : String × String) : String := " " ++ a.1 ++ "=\"" ++ a.2 ++ "\""

inductive TagPair : String → String → Prop
  | bare {element : String} (h : element ∈ bareElements) :
      TagPair ("<" ++ element ++ ">") ("</" ++ element ++ ">")
  | attributed {element : String} {attributes : List (String × String)}
      (h : element ∈ ["span", "div"]) (hn : attributes ≠ [])
      (ha : ∀ a ∈ attributes, IsAttribute a) :
      TagPair ("<" ++ element ++ String.join (attributes.map writeAttribute) ++ ">")
        ("</" ++ element ++ ">")

/-- Properly nested HTML. Three elements are never closed. -/
inductive Balanced : String → Prop
  | plain {s : String} (hl : '<' ∉ s.toList) (hg : '>' ∉ s.toList) : Balanced s
  | unclosed {s : String} (h : s ∈ ["<br>", "<li>", "<p>"]) : Balanced s
  | comment {s : String} (h : ¬ "-->".toList <:+: s.toList) : Balanced ("<!--" ++ s ++ "-->")
  | append {s t : String} (hs : Balanced s) (ht : Balanced t) : Balanced (s ++ t)
  | enclosed {opening s closing : String} (h : TagPair opening closing) (hs : Balanced s) :
      Balanced (opening ++ s ++ closing)

def matchedFrom (opened : List String) : List Node → Bool
  | [] => opened.isEmpty
  | n :: rest =>
    match boundary? n with
    | none => matchedFrom opened rest
    | some (.opening e) => matchedFrom (e :: opened) rest
    | some (.closing e) => opened.head? = some e && matchedFrom opened.tail rest

def asList : Node → List Node
  | .group children => children
  | n => [n]

def structureless (n : Node) : Bool :=
  boundary? n ≠ some (.opening "document") && boundary? n ≠ some (.closing "document") &&
    match n with
    | .command name _ _ => name ∉ ["author", "maketitle", "documentclass"]
    | _ => true

def plainMath : Node → Bool
  | .math content _ => '<' ∉ content.toList && '>' ∉ content.toList
  | _ => true

def matchedBelow : Node → Bool
  | .group children => matchedFrom [] children
  | .command name (argument :: _) _ => !wraps name || matchedFrom [] (asList argument)
  | _ => true

def Orderly (document : Node) : Prop :=
  (∀ n ∈ visited document, structureless n) ∧ (∀ n ∈ visited document, plainMath n) ∧
    ∀ n ∈ visited document, matchedBelow n

instance (document : Node) : Decidable (Orderly document) := inferInstanceAs (Decidable (_ ∧ _))

theorem Orderly.mono {m n : Node} (ho : Orderly n) (h : visited m ⊆ visited n) : Orderly m :=
  ⟨fun k hk => ho.1 k (h hk), fun k hk => ho.2.1 k (h hk), fun k hk => ho.2.2 k (h hk)⟩

theorem balanced_empty : Balanced "" := .plain (by decide) (by decide)

theorem balanced_newline : Balanced "\n" := .plain (by decide) (by decide)

theorem balanced_escape (s : String) : Balanced (escape s) :=
  .plain (not_mem_escape (by simp) s) (not_mem_escape (by simp) s)

theorem tagPair_of_attribute {element key value : String} (h : element ∈ ["span", "div"])
    (ha : IsAttribute (key, value)) :
    TagPair ("<" ++ element ++ " " ++ key ++ "=\"" ++ value ++ "\">") ("</" ++ element ++ ">") := by
  have htag : "<" ++ element ++ String.join ([(key, value)].map writeAttribute) ++ ">" =
      "<" ++ element ++ " " ++ key ++ "=\"" ++ value ++ "\">" := by
    apply String.toList_inj.mp
    simp [writeAttribute]
  rw [← htag]
  exact .attributed h (by simp) (by simpa using ha)

theorem balanced_math {content : String} (hl : '<' ∉ content.toList) (hg : '>' ∉ content.toList)
    (display : Bool) : Balanced (math content display) := by
  cases display with
  | true =>
    have hpair := @tagPair_of_attribute "div" "class" "math-display" (by decide) (by decide)
    have hbody : Balanced ("$$" ++ content ++ "$$") := .plain (by simp [hl]) (by simp [hg])
    have hfront : "<div class=\"math-display\">$$" =
        "<" ++ "div" ++ " " ++ "class" ++ "=\"" ++ "math-display" ++ "\">" ++ "$$" := by decide
    have hback : "$$</div>" = "$$" ++ ("</" ++ "div" ++ ">") := by decide
    rw [math, if_pos rfl, hfront, hback]
    simpa only [String.append_assoc] using Balanced.enclosed hpair hbody
  | false =>
    have hpair := @tagPair_of_attribute "span" "class" "math-inline" (by decide) (by decide)
    have hbody : Balanced ("$" ++ content ++ "$") := .plain (by simp [hl]) (by simp [hg])
    have hfront : "<span class=\"math-inline\">$" =
        "<" ++ "span" ++ " " ++ "class" ++ "=\"" ++ "math-inline" ++ "\">" ++ "$" := by decide
    have hback : "$</span>" = "$" ++ ("</" ++ "span" ++ ">") := by decide
    rw [math, if_neg Bool.false_ne_true, hfront, hback]
    simpa only [String.append_assoc] using Balanced.enclosed hpair hbody

theorem balanced_unknownCommand {name : String} (h : Proper (.command, name)) :
    Balanced (unknownCommand name) := by
  have hcomment : ¬ "-->".toList <:+: (" Unknown command: " ++ name ++ " ").toList :=
    @Proper.not_infix_comment name h _ '-' '>' (by decide) (by decide) (by decide) (by decide)
      (by decide) (by decide)
  rw [unknownCommand_eq]
  exact .comment hcomment

theorem exists_tagPair_of_wrapping {name opening closing : String}
    (h : (name, opening, closing) ∈ wrappingCommands) :
    ∃ tag, TagPair opening tag ∧ (closing = tag ∨ closing = tag ++ "\n") := by
  have htable : ∀ e ∈ wrappingCommands, ∃ element ∈ bareElements, e.2.1 = "<" ++ element ++ ">" ∧
      (e.2.2 = "</" ++ element ++ ">" ∨ e.2.2 = "</" ++ element ++ ">" ++ "\n") := by
    decide
  obtain ⟨element, he, ho, hc⟩ := htable _ h
  refine ⟨"</" ++ element ++ ">", ?_, hc⟩
  rw [show opening = _ from ho]
  exact .bare he

theorem exists_tagPair_of_environment {name : String} (h : name ≠ "document") :
    ∃ opening closing, TagPair opening closing ∧ beginEnvironment name = opening ++ "\n" ∧
      endEnvironment name = closing ++ "\n" := by
  by_cases hi : name = "itemize"
  · subst hi
    exact ⟨_, _, @TagPair.bare "ul" (by decide), by decide, by decide⟩
  by_cases he : name = "enumerate"
  · subst he
    exact ⟨_, _, @TagPair.bare "ol" (by decide), by decide, by decide⟩
  by_cases hc : name = "center"
  · subst hc
    exact ⟨_, _, @tagPair_of_attribute "div" "style" "text-align: center;" (by decide) (by decide),
      by decide, by decide⟩
  have hattribute : IsAttribute ("class", escape name) := by
    refine ⟨show "class" ≠ "" by decide, show "class".toList.all Char.isLower by decide, ?_⟩
    apply List.all_eq_true.mpr
    intro c hc
    apply decide_eq_true
    intro hm
    have hmem : ['"', '<', '>'] ⊆ ['<', '>', '"', '\''] := by simp
    exact not_mem_escape (hmem hm) name hc
  have hopening : openingTags.lookup name = none :=
    List.lookup_eq_none_iff.mpr (by simp [openingTags, h, hi, he, hc])
  have hclosing : closingTags.lookup name = none :=
    List.lookup_eq_none_iff.mpr (by simp [closingTags, h, hi, he])
  refine ⟨_, _, @tagPair_of_attribute "div" _ _ (by decide) hattribute, ?_, ?_⟩
  · apply String.toList_inj.mp
    simp [beginEnvironment, hopening]
  · rw [endEnvironment, hclosing]
    decide

theorem balanced_environment {name s : String} (h : name ≠ "document") (hs : Balanced s) :
    Balanced (beginEnvironment name ++ s ++ endEnvironment name) := by
  obtain ⟨opening, closing, hpair, ho, hc⟩ := exists_tagPair_of_environment h
  have hbody : Balanced (opening ++ ("\n" ++ s) ++ closing) :=
    .enclosed hpair (.append balanced_newline hs)
  rw [ho, hc]
  simpa only [String.append_assoc] using hbody.append balanced_newline

inductive Closes : List String → String → Prop
  | nil {s : String} (hs : Balanced s) : Closes [] s
  | cons {name : String} {opened : List String} {s t : String} (hs : Balanced s)
      (ht : Closes opened t) : Closes (name :: opened) (s ++ endEnvironment name ++ t)

theorem Closes.prepend {opened : List String} {s t : String} (hs : Balanced s)
    (ht : Closes opened t) : Closes opened (s ++ t) := by
  cases ht with
  | nil ht => exact .nil (hs.append ht)
  | cons hu ht =>
    rw [← String.append_assoc, ← String.append_assoc]
    exact .cons (hs.append hu) ht

theorem render_of_opening {n : Node} {name : String} (h : boundary? n = some (.opening name))
    (escaping : Bool) : render escaping n = beginEnvironment name := by
  obtain ⟨argument, others, optional, ⟨rfl, hb⟩ | ⟨rfl, hb⟩⟩ := boundary?_eq_some h
  · cases hb
    rfl
  · cases hb

theorem render_of_closing {n : Node} {name : String} (h : boundary? n = some (.closing name))
    (escaping : Bool) : render escaping n = endEnvironment name := by
  obtain ⟨argument, others, optional, ⟨rfl, hb⟩ | ⟨rfl, hb⟩⟩ := boundary?_eq_some h
  · cases hb
  · cases hb
    rfl

theorem boundary?_of_matchedFrom {n : Node} (h : matchedFrom [] (asList n)) : boundary? n = none := by
  cases hb : boundary? n with
  | none => rfl
  | some b =>
    have hlist : asList n = [n] := by
      obtain ⟨argument, others, optional, ⟨rfl, -⟩ | ⟨rfl, -⟩⟩ := boundary?_eq_some hb <;> rfl
    rw [hlist, matchedFrom, hb] at h
    cases b <;> simp [matchedFrom] at h

-- The stack of open environments says what the rest of the siblings still has to close.
theorem closes_of_matchedFrom {opened : List String} {nodes : List Node}
    (h : matchedFrom opened nodes) (hs : ∀ n ∈ nodes, structureless n)
    (hb : ∀ n ∈ nodes, boundary? n = none → Balanced (render true n)) :
    Closes opened (String.join (renderAll true nodes)) := by
  induction nodes generalizing opened with
  | nil =>
    have hnil : opened = [] := by simpa [matchedFrom] using h
    rw [hnil]
    exact .nil balanced_empty
  | cons n rest ih =>
    obtain ⟨hsn, hsrest⟩ := List.forall_mem_cons.mp hs
    obtain ⟨hbn, hbrest⟩ := List.forall_mem_cons.mp hb
    rw [renderAll_cons, String.join_cons]
    rw [matchedFrom] at h
    split at h
    · rename_i hnone
      exact (ih h hsrest hbrest).prepend (hbn hnone)
    · rename_i name hopening
      have hname : name ≠ "document" := by
        rintro rfl
        simp [structureless, hopening] at hsn
      rw [render_of_opening hopening]
      have hrest := ih h hsrest hbrest
      generalize String.join (renderAll true rest) = t at hrest
      cases hrest with
      | cons hs ht =>
        rw [← String.append_assoc, ← String.append_assoc]
        exact ht.prepend (balanced_environment hname hs)
    · rename_i name hclosing
      simp only [Bool.and_eq_true, decide_eq_true_eq] at h
      obtain ⟨hhead, hmatched⟩ := h
      obtain ⟨outer, rfl⟩ := List.head?_eq_some_iff.mp hhead
      rw [render_of_closing hclosing]
      have hclosed := @Closes.cons name _ _ _ balanced_empty (ih hmatched hsrest hbrest)
      rwa [String.empty_append] at hclosed

theorem Form.balanced {name : String} {f : Option (String × String) → String} (h : Form name f)
    (hname : name ∉ ["author", "maketitle", "documentclass"]) (hp : Proper (.command, name))
    {argument : Option (String × String)} (hb : name = "begin" ∨ name = "end" → argument = none)
    (ha : wraps name → ∀ a ∈ argument, Balanced a.1) : Balanced (f argument) := by
  cases h with
  | @fixed _ html h =>
    have htable : ∀ e ∈ fixedCommands, e.1 ∉ ["author", "maketitle", "documentclass"] →
        e.2 ∈ ["<br>", "<li>", "<p>"] ∨ e.2 = "<br>" ++ "\n" := by decide
    rcases htable _ h hname with hu | hu
    · exact .unclosed hu
    · rw [show html = "<br>" ++ "\n" from hu]
      exact .append (.unclosed (by decide)) balanced_newline
  | wrapping h =>
    cases argument with
    | none => exact balanced_empty
    | some a =>
      obtain ⟨tag, hpair, hclosing⟩ := exists_tagPair_of_wrapping h
      have hbody := Balanced.enclosed hpair (ha (wraps_of_mem h) a rfl)
      rcases hclosing with rfl | rfl
      · exact hbody
      · simpa only [Option.elim_some, String.append_assoc] using hbody.append balanced_newline
  | author => simp at hname
  | opening =>
    rw [hb (.inl rfl)]
    exact balanced_empty
  | closing =>
    rw [hb (.inr rfl)]
    exact balanced_empty
  | unknown h => exact balanced_unknownCommand hp

theorem balanced_render {n : Node} (hn : boundary? n = none) (ho : Orderly n)
    (hs : ∀ m ∈ visited n, m.Scanned) : Balanced (render true n) := by
  induction n using Node.induction with
  | text content => exact balanced_escape content
  | math content display =>
    have hplain := ho.2.1 _ (mem_visited_self _)
    simp only [plainMath, Bool.and_eq_true, decide_eq_true_eq] at hplain
    exact balanced_math hplain.1 hplain.2 display
  | foreign typeName kind => exact (hs _ (mem_visited_self _)).elim
  | group children ih =>
    have hclosed : Closes [] (String.join (renderAll true children)) := by
      apply closes_of_matchedFrom (ho.2.2 _ (mem_visited_self _))
      · intro m hm
        exact ho.1 m (visited_subset_group hm (mem_visited_self m))
      · intro m hm hb
        have hsub := visited_subset_group hm
        exact ih m hm hb (ho.mono hsub) fun k hk => hs k (hsub hk)
    cases hclosed with
    | nil hb => exact hb
  | command name required optional ihr iho =>
    have hname := ho.1 _ (mem_visited_self _)
    have hmatched := ho.2.2 _ (mem_visited_self _)
    have hproper : Proper (.command, name) := hs _ (mem_visited_self _)
    simp only [structureless, Bool.and_eq_true, decide_eq_true_eq] at hname
    rw [render_command]
    apply (form name).balanced hname.2 hproper
    · intro hbe
      cases required with
      | nil => rfl
      | cons argument others =>
        rcases hbe with rfl | rfl <;> cases hn
    · intro hw a ha
      cases required with
      | nil => cases ha
      | cons argument others =>
        cases ha
        have hshows : showsArgument name := by simp [showsArgument, hw]
        have hsub := visited_subset_command hshows argument others optional
        have hargument : boundary? argument = none := by
          apply boundary?_of_matchedFrom
          simpa [matchedBelow, hw] using hmatched
        exact ihr argument (by simp) hargument (ho.mono hsub) fun k hk => hs k (hsub hk)

/-- Where text is escaped, a properly nested document gives properly nested HTML. -/
theorem balanced_of_compileFragment {source : String} {document : Node} {options : Entries}
    {o : Options} (hparse : parse (tokenize source) nestingLimit = .ok document)
    (horderly : Orderly document) (hread : Compiler.readOptions (.table options) = .ok o)
    (hescaping : o.escaping = true)
    (hoff : ∀ v, options.find? "inject_math_script" = some v → v.truthy = false) :
    ∃ html, compileFragment (.str source) options = .ok html ∧ Balanced html := by
  have hcompiled : compiled true source = .ok (render true document) := by
    rw [compiled, hparse]
    rfl
  have hboundary : boundary? document = none := by
    obtain ⟨nodes, k, rfl, -, -⟩ := Grammar.elements_of_parse hparse
    rfl
  have hscanned : ∀ n ∈ visited document, n.Scanned :=
    fun n hn => scanned_of_parse hparse n (visited_subset_flatten document hn)
  refine ⟨render true document, ?_, balanced_render hboundary horderly hscanned⟩
  rw [compileFragment_eq hoff hread, hescaping, hcompiled]

def nestedSource : String :=
  "\\section\x7b$x$\\begin\x7bcenter\x7da\\end\x7bcenter\x7d\x7d\n\\begin\x7bb\"\x7d" ++
    "\\item<c>\x7b\\textbf\x7bd\x7d\\>\x7d\\end\x7bb\"\x7d\\end"

def nestedHtml : String :=
  "<h1><span class=\"math-inline\">$x$</span><div style=\"text-align: center;\">\na</div>\n</h1>\n " ++
    "<div class=\"b&quot;\">\n<li>&lt;c&gt;<strong>d</strong><!-- Unknown command: > --></div>\n"

theorem balanced_of_compileFragment_nested :
    compileFragment (.str nestedSource) [(.str "escape_html", .int 1)] = .ok nestedHtml ∧
      Balanced nestedHtml := by
  have hrender : (parse (tokenize nestedSource) nestingLimit).map
      (fun d => (decide (Orderly d), render true d)) = .ok (true, nestedHtml) := by decide +kernel
  have hread : Compiler.readOptions (.table [(.str "escape_html", .int 1)]) =
      .ok ⟨true, true, .str mathScript⟩ := rfl
  have hoff : ∀ v, Entries.find? [(.str "escape_html", .int 1)] "inject_math_script" = some v →
      v.truthy = false := by
    intro v hv
    cases hv
  obtain ⟨document, hparse, hfacts⟩ := exists_ok_of_map_eq_ok hrender
  obtain ⟨horderly, hhtml⟩ := Prod.mk.inj hfacts
  obtain ⟨html, hcompiled, hbalanced⟩ :=
    balanced_of_compileFragment hparse (of_decide_eq_true horderly) hread rfl hoff
  have he : html = nestedHtml := by
    rw [compileFragment_eq hoff hread, compiled, hparse] at hcompiled
    rw [← hhtml]
    exact (Except.ok.inj hcompiled).symm
  subst he
  exact ⟨hcompiled, hbalanced⟩

end TexHtml.Html
