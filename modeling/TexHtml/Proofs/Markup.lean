import TexHtml.Proofs.Rendering

namespace TexHtml.Html

def tagsFrom : Option (List Char) → List Char → List String
  | _, [] => []
  | none, c :: cs => tagsFrom (if c = '<' then some [c] else none) cs
  | some read, c :: cs =>
    if c = '>' then String.ofList (read ++ [c]) :: tagsFrom none cs
    else tagsFrom (some (read ++ [c])) cs

def tags (html : String) : List String := tagsFrom none html.toList

def openStep (inside : Bool) (c : Char) : Bool :=
  if c = '<' then true else if c = '>' then false else inside

def openAfter (inside : Bool) (cs : List Char) : Bool := cs.foldl openStep inside

theorem openAfter_cons (inside : Bool) (c : Char) (cs : List Char) :
    openAfter inside (c :: cs) = openAfter (openStep inside c) cs := rfl

theorem openAfter_append (inside : Bool) (cs ds : List Char) :
    openAfter inside (cs ++ ds) = openAfter (openAfter inside cs) ds := List.foldl_append

theorem openAfter_of_not_mem (inside : Bool) {cs : List Char} (hl : '<' ∉ cs) (hg : '>' ∉ cs) :
    openAfter inside cs = inside := by
  induction cs with
  | nil => rfl
  | cons c cs ih =>
    rw [List.mem_cons, not_or] at hl hg
    rw [openAfter_cons, openStep, if_neg (Ne.symm hl.1), if_neg (Ne.symm hg.1)]
    exact ih hl.2 hg.2

theorem tagsFrom_append {cs : List Char} {read : Option (List Char)}
    (h : openAfter read.isSome cs = false) (ds : List Char) :
    tagsFrom read (cs ++ ds) = tagsFrom read cs ++ tagsFrom none ds := by
  induction cs generalizing read with
  | nil =>
    cases read with
    | none => rfl
    | some read => cases h
  | cons c cs ih =>
    rw [openAfter_cons] at h
    cases read with
    | none =>
      rw [List.cons_append, tagsFrom, tagsFrom]
      apply ih
      by_cases hc : c = '<' <;> simpa [openStep, hc] using h
    | some read =>
      rw [List.cons_append, tagsFrom, tagsFrom]
      by_cases hc : c = '>'
      · rw [if_pos hc, if_pos hc, ih (by simpa [openStep, hc] using h), List.cons_append]
      · rw [if_neg hc, if_neg hc]
        apply ih
        simpa [openStep, hc] using h

theorem tagsFrom_of_not_mem {cs : List Char} (h : '<' ∉ cs) : tagsFrom none cs = [] := by
  induction cs with
  | nil => rfl
  | cons c cs ih =>
    rw [List.mem_cons, not_or] at h
    rw [tagsFrom, if_neg (Ne.symm h.1)]
    exact ih h.2

def Closed (html : String) : Prop := openAfter false html.toList = false

instance (html : String) : Decidable (Closed html) := inferInstanceAs (Decidable (_ = _))

theorem Closed.append {s t : String} (hs : Closed s) (ht : Closed t) : Closed (s ++ t) := by
  rw [Closed, String.toList_append, openAfter_append, hs]
  exact ht

theorem closed_append_of_closing (s : String) {t : String}
    (h : ∀ inside, openAfter inside t.toList = false) : Closed (s ++ t) := by
  rw [Closed, String.toList_append, openAfter_append]
  exact h _

theorem Closed.tags_append {s : String} (h : Closed s) (t : String) :
    tags (s ++ t) = tags s ++ tags t := by
  have hnone : openAfter (none : Option (List Char)).isSome s.toList = false := h
  rw [tags, String.toList_append, tagsFrom_append hnone]
  rfl

theorem closed_escape (s : String) : Closed (escape s) :=
  openAfter_of_not_mem false (not_mem_escape (by simp) s) (not_mem_escape (by simp) s)

theorem tags_escape (s : String) : tags (escape s) = [] :=
  tagsFrom_of_not_mem (not_mem_escape (by simp) s)

-- Math and names of commands are written as they are, and may open tags. What is written behind them
-- closes all of these.

theorem closed_math (content : String) (display : Bool) : Closed (math content display) := by
  rw [math]
  split
  · exact closed_append_of_closing _ (by decide)
  · exact closed_append_of_closing _ (by decide)

theorem closed_unknownCommand (name : String) : Closed (unknownCommand name) :=
  closed_append_of_closing _ (by decide)

theorem closed_beginEnvironment (name : String) : Closed (beginEnvironment name) := by
  have htable : ∀ e ∈ openingTags, Closed e.2 := by decide
  rw [beginEnvironment]
  split
  · rename_i html h
    exact htable _ (mem_of_lookup h)
  · exact closed_append_of_closing _ (by decide)

theorem closed_endEnvironment (name : String) : Closed (endEnvironment name) := by
  have htable : ∀ e ∈ closingTags, Closed e.2 := by decide
  rw [endEnvironment]
  cases h : closingTags.lookup name with
  | none => decide
  | some html => exact htable _ (mem_of_lookup h)

theorem closed_wrapping {name opening closing : String}
    (h : (name, opening, closing) ∈ wrappingCommands) : Closed opening ∧ Closed closing := by
  have htable : ∀ e ∈ wrappingCommands, Closed e.2.1 ∧ Closed e.2.2 := by decide
  exact htable _ h

theorem Form.closed {name : String} {f : Option (String × String) → String} (h : Form name f)
    {argument : Option (String × String)} (ha : ∀ a ∈ argument, Closed a.1) :
    Closed (f argument) := by
  have htable : ∀ e ∈ fixedCommands, Closed e.2 := by decide
  cases h with
  | fixed h => exact htable _ h
  | unknown h => exact closed_unknownCommand name
  | wrapping h =>
    cases argument with
    | none => rfl
    | some a =>
      obtain ⟨hopening, hclosing⟩ := closed_wrapping h
      exact (hopening.append (ha a rfl)).append hclosing
  | author =>
    cases argument with
    | none => rfl
    | some a => exact closed_append_of_closing _ (by decide)
  | opening =>
    cases argument with
    | none => rfl
    | some a => exact closed_beginEnvironment a.2
  | closing =>
    cases argument with
    | none => rfl
    | some a => exact closed_endEnvironment a.2

mutual

theorem closed_render (n : Node) : Closed (render true n) := by
  match n with
  | .text content => exact closed_escape content
  | .math content display => exact closed_math content display
  | .group children => exact closed_join_renderAll children
  | .command name required optional => exact (form name).closed (closed_renderFirst required)
  | .foreign typeName kind => exact closed_append_of_closing _ (by decide)

theorem closed_join_renderAll (nodes : List Node) : Closed (String.join (renderAll true nodes)) := by
  match nodes with
  | [] => rfl
  | n :: rest =>
    rw [renderAll_cons, String.join_cons]
    exact (closed_render n).append (closed_join_renderAll rest)

theorem closed_renderFirst (nodes : List Node) : ∀ a ∈ renderFirst true nodes, Closed a.1 := by
  match nodes with
  | [] => simp
  | n :: rest => simpa using closed_render n

end

mutual

/-- The trees differ at most in the contents of text that stands outside all required arguments of
the commands `begin`, `end` and `author`. -/
inductive SameOutline : Node → Node → Prop
  | text (content content' : String) : SameOutline (.text content) (.text content')
  | math (content : String) (display : Bool) :
      SameOutline (.math content display) (.math content display)
  | group {children children' : List Node} (h : SameOutlines children children') :
      SameOutline (.group children) (.group children')
  | command {name : String} {required required' optional optional' : List Node}
      (hn : name ∉ ["begin", "end", "author"]) (hr : SameOutlines required required')
      (ho : SameOutlines optional optional') :
      SameOutline (.command name required optional) (.command name required' optional')
  | special {name : String} {optional optional' : List Node} (hn : name ∈ ["begin", "end", "author"])
      (required : List Node) (ho : SameOutlines optional optional') :
      SameOutline (.command name required optional) (.command name required optional')
  | foreign (typeName : String) (kind : Option NodeKind) :
      SameOutline (.foreign typeName kind) (.foreign typeName kind)

inductive SameOutlines : List Node → List Node → Prop
  | nil : SameOutlines [] []
  | cons {n n' : Node} {rest rest' : List Node} (first : SameOutline n n')
      (others : SameOutlines rest rest') : SameOutlines (n :: rest) (n' :: rest')

end

theorem Form.tags_eq {name : String} {f : Option (String × String) → String} (h : Form name f)
    (hn : name ∉ ["begin", "end", "author"]) {a b : String × String} (ha : Closed a.1)
    (hb : Closed b.1) (hab : tags a.1 = tags b.1) : tags (f (some a)) = tags (f (some b)) := by
  cases h with
  | fixed h => rfl
  | unknown h => rfl
  | wrapping h =>
    obtain ⟨hopening, -⟩ := closed_wrapping h
    simp only [Option.elim_some]
    rw [(hopening.append ha).tags_append, (hopening.append hb).tags_append, hopening.tags_append,
      hopening.tags_append, hab]
  | author => simp at hn
  | opening => simp at hn
  | closing => simp at hn

mutual

theorem SameOutline.tags_eq {n n' : Node} (h : SameOutline n n') :
    tags (render true n) = tags (render true n') := by
  match h with
  | .text content content' => simp only [render_text, if_true, tags_escape]
  | .math content display => rfl
  | .group h => exact h.tags_eq
  | @SameOutline.command name _ _ _ _ hn hr ho =>
    -- of the required arguments, only the first is rendered
    match hr with
    | .nil => rfl
    | @SameOutlines.cons m m' _ _ first others =>
      exact (form name).tags_eq hn (closed_render m) (closed_render m') first.tags_eq
  | .special hn required ho => rfl
  | .foreign typeName kind => rfl

theorem SameOutlines.tags_eq {nodes nodes' : List Node} (h : SameOutlines nodes nodes') :
    tags (String.join (renderAll true nodes)) = tags (String.join (renderAll true nodes')) := by
  match h with
  | .nil => rfl
  | @SameOutlines.cons n n' _ _ first others =>
    rw [renderAll_cons, renderAll_cons, String.join_cons, String.join_cons,
      (closed_render n).tags_append, (closed_render n').tags_append, first.tags_eq, others.tags_eq]

end

/-- Where text is escaped, trees that differ in text only have the same tags. -/
theorem tags_render_eq {options : Options} (he : options.escaping = true) {n n' : Node}
    (h : SameOutline n n') :
    tags (render options.escaping n) = tags (render options.escaping n') := by
  rw [he]
  exact h.tags_eq

def interspersed (s : String) : Node :=
  .group [.text s, .command "textbf" [.group [.text s, .math "x < y" false]] [.text s],
    .command "a>b<" [] [], .command "author" [.text "A"] [.text s], .text s]

theorem tags_render_eq_interspersed :
    SameOutline (interspersed "") (interspersed "</b><script>") ∧
      tags (render (Options.ofEntries [(.str "escape_html", .int 1)]).escaping
          (interspersed "</b><script>")) =
        ["<strong>", "<span class=\"math-inline\">", "< y$</span>", "</strong>",
          "<!-- Unknown command: a>", "< -->", "<meta name=\"author\" content=\"A\">"] := by
  have he : (Options.ofEntries [(.str "escape_html", .int 1)]).escaping = true := rfl
  have hs (t t' : String) : SameOutlines [.text t] [.text t'] := .cons (.text t t') .nil
  have h : SameOutline (interspersed "") (interspersed "</b><script>") := by
    refine .group (.cons (.text _ _)
      (.cons (.command (by decide) (.cons (.group ?_) .nil) (hs _ _)) ?_))
    · exact .cons (.text _ _) (.cons (.math _ _) .nil)
    · exact .cons (.command (by decide) .nil .nil) (.cons (.special (by decide) _ (hs _ _)) (hs _ _))
  refine ⟨h, (tags_render_eq he h).symm.trans ?_⟩
  decide +kernel

end TexHtml.Html
