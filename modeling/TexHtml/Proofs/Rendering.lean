import TexHtml.Html.Options

namespace TexHtml.Html

section Escaping

variable {x : Char}

theorem not_mem_replaceChar {c : Char} {replacement s : List Char} (hr : x ∉ replacement)
    (hs : x ∉ s ∨ x = c) : x ∉ replaceChar c replacement s := by
  intro hx
  obtain ⟨y, hy, hxy⟩ := List.mem_flatMap.mp hx
  split at hxy
  · exact hr hxy
  · rename_i hyc
    have hxy : x = y := by simpa using hxy
    subst hxy
    exact hs.elim (fun h => h hy) hyc

theorem not_mem_replaced {es : List (Char × String)} (hr : ∀ e ∈ es, x ∉ e.2.toList)
    {s : List Char} (hs : x ∉ s ∨ x ∈ es.map Prod.fst) :
    x ∉ es.foldl (fun t e => replaceChar e.1 e.2.toList t) s := by
  induction es generalizing s with
  | nil => simpa using hs
  | cons e es ih =>
    obtain ⟨he, hes⟩ := List.forall_mem_cons.mp hr
    apply ih hes
    rw [List.map_cons, List.mem_cons, ← or_assoc] at hs
    exact hs.imp_left (not_mem_replaceChar he)

theorem not_mem_escape (h : x ∈ ['<', '>', '"', '\'']) (s : String) : x ∉ (escape s).toList := by
  have hx : x ∈ entities.map Prod.fst ∧ ∀ e ∈ entities, x ∉ e.2.toList := by
    simp only [List.mem_cons, List.not_mem_nil, or_false] at h
    rcases h with rfl | rfl | rfl | rfl <;> decide
  rw [escape, String.toList_ofList]
  exact not_mem_replaced hx.2 (.inr hx.1)

theorem replaced_append (es : List (Char × String)) (s t : List Char) :
    es.foldl (fun t e => replaceChar e.1 e.2.toList t) (s ++ t) =
      es.foldl (fun t e => replaceChar e.1 e.2.toList t) s ++
        es.foldl (fun t e => replaceChar e.1 e.2.toList t) t := by
  induction es generalizing s t with
  | nil => rfl
  | cons e es ih =>
    have hreplace : replaceChar e.1 e.2.toList (s ++ t) =
        replaceChar e.1 e.2.toList s ++ replaceChar e.1 e.2.toList t := List.flatMap_append
    rw [List.foldl_cons, hreplace, ih]
    rfl

theorem escape_append (s t : String) : escape (s ++ t) = escape s ++ escape t := by
  rw [escape, String.toList_append, replaced_append, String.ofList_append]
  rfl

end Escaping

inductive Form : String → (Option (String × String) → String) → Prop
  | fixed {name html : String} (h : (name, html) ∈ fixedCommands) : Form name fun _ => html
  | wrapping {name opening closing : String} (h : (name, opening, closing) ∈ wrappingCommands) :
      Form name fun argument => argument.elim "" fun a => opening ++ a.1 ++ closing
  | author :
      Form "author" fun argument => argument.elim "" fun a =>
        "<meta name=\"author\" content=\"" ++ a.1 ++ "\">\n"
  | opening : Form "begin" fun argument => argument.elim "" fun a => beginEnvironment a.2
  | closing : Form "end" fun argument => argument.elim "" fun a => endEnvironment a.2
  | unknown {name : String} (h : isKnownCommand name = false) :
      Form name fun _ => unknownCommand name

theorem mem_of_lookup {α β : Type} [BEq α] [LawfulBEq α] {a : α} {b : β} {table : List (α × β)}
    (h : table.lookup a = some b) : (a, b) ∈ table := by
  obtain ⟨before, after, rfl, -⟩ := List.lookup_eq_some_iff.mp h
  simp

theorem command_of_unknown {name : String} (h : isKnownCommand name = false)
    (argument : Option (String × String)) : command name argument = unknownCommand name := by
  simp only [isKnownCommand, Bool.or_eq_false_iff, Option.isSome_eq_false_iff,
    Option.isNone_iff_eq_none] at h
  obtain ⟨⟨hfixed, hwrapping⟩, hspecial⟩ := h
  simp only [command, hfixed, hwrapping, hspecial, Bool.false_eq_true, if_false]

theorem form_special {name : String} (h : name ∈ specialCommands) : Form name (command name) := by
  have hname : name = "author" ∨ name = "begin" ∨ name = "end" := by
    simpa [specialCommands] using h
  rcases hname with rfl | rfl | rfl
  · have he : command "author" = fun argument => argument.elim "" fun a =>
        "<meta name=\"author\" content=\"" ++ a.1 ++ "\">\n" := by
      funext argument
      cases argument <;> rfl
    rw [he]
    exact .author
  · have he : command "begin" = fun argument => argument.elim "" fun a => beginEnvironment a.2 := by
      funext argument
      cases argument <;> rfl
    rw [he]
    exact .opening
  · have he : command "end" = fun argument => argument.elim "" fun a => endEnvironment a.2 := by
      funext argument
      cases argument <;> rfl
    rw [he]
    exact .closing

theorem form (name : String) : Form name (command name) := by
  cases hf : fixedCommands.lookup name with
  | some html =>
    have he : command name = fun _ => html := by
      funext argument
      simp only [command, hf]
    rw [he]
    exact .fixed (mem_of_lookup hf)
  | none =>
    cases hw : wrappingCommands.lookup name with
    | some tags =>
      obtain ⟨opening, closing⟩ := tags
      have he : command name = fun argument =>
          argument.elim "" fun a => opening ++ a.1 ++ closing := by
        funext argument
        cases argument <;> simp only [command, hf, hw, Option.elim_none, Option.elim_some]
      rw [he]
      exact .wrapping (mem_of_lookup hw)
    | none =>
      by_cases hs : name ∈ specialCommands
      · exact form_special hs
      · have hu : isKnownCommand name = false := by simp [isKnownCommand, hf, hw, hs]
        have he : command name = fun _ => unknownCommand name := funext (command_of_unknown hu)
        rw [he]
        exact .unknown hu

theorem unknownCommand_eq (name : String) :
    unknownCommand name = "<!--" ++ (" Unknown command: " ++ name ++ " ") ++ "-->" := by
  have hfront : "<!-- Unknown command: " = "<!--" ++ " Unknown command: " := by decide
  have hback : " -->" = " " ++ "-->" := by decide
  calc
    unknownCommand name = "<!-- Unknown command: " ++ name ++ " -->" := rfl
    _ = "<!--" ++ " Unknown command: " ++ name ++ " -->" := congrArg (· ++ name ++ " -->") hfront
    _ = "<!--" ++ " Unknown command: " ++ name ++ (" " ++ "-->") :=
      congrArg ("<!--" ++ " Unknown command: " ++ name ++ ·) hback
    _ = "<!--" ++ (" Unknown command: " ++ name ++ " ") ++ "-->" := by
      simp only [String.append_assoc]

section Equations

variable (escaping : Bool)

@[simp] theorem render_text (content : String) :
    render escaping (.text content) = if escaping then escape content else content := rfl

@[simp] theorem render_math (content : String) (display : Bool) :
    render escaping (.math content display) = math content display := rfl

@[simp] theorem render_group (children : List Node) :
    render escaping (.group children) = String.join (renderAll escaping children) := rfl

@[simp] theorem render_command (name : String) (required optional : List Node) :
    render escaping (.command name required optional) =
      command name (renderFirst escaping required) := rfl

@[simp] theorem render_foreign (typeName : String) (kind : Option NodeKind) :
    render escaping (.foreign typeName kind) =
      "<!-- Unknown node type: " ++ typeName ++ " -->" := rfl

@[simp] theorem renderAll_nil : renderAll escaping [] = [] := rfl

@[simp] theorem renderAll_cons (n : Node) (rest : List Node) :
    renderAll escaping (n :: rest) = render escaping n :: renderAll escaping rest := rfl

@[simp] theorem renderFirst_nil : renderFirst escaping [] = none := rfl

@[simp] theorem renderFirst_cons (n : Node) (rest : List Node) :
    renderFirst escaping (n :: rest) = some (render escaping n, n.literalText) := rfl

theorem renderAll_append (ns ms : List Node) :
    renderAll escaping (ns ++ ms) = renderAll escaping ns ++ renderAll escaping ms := by
  induction ns with
  | nil => rfl
  | cons n ns ih => rw [List.cons_append, renderAll_cons, ih, renderAll_cons, List.cons_append]

end Equations

end TexHtml.Html
