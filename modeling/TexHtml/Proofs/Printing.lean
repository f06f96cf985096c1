import TexHtml.Proofs.GrammarSound
import TexHtml.Proofs.Shapes

/-!
A source text for every document. Two nodes that stand side by side are kept apart by a closing
delimiter that closes nothing, so that neither runs into the other.
-/

namespace TexHtml

namespace Printing

open Shape

def opening (d : Delimiter) : Shape := (.opener d, d.opening)

def closing (d : Delimiter) : Shape := (.closer d, d.closing)

def separator : Option Delimiter → Shape
  | some .bracket => closing .brace
  | _ => closing .bracket

def textShape (content : String) : Shape :=
  if content = " " then (.newline, "\n") else (.text, content)

mutual

def shapes : Node → List Shape
  | .text content => [textShape content]
  | .math content display => [(.math display, content)]
  | .group children => opening .brace :: (siblings (some .brace) children ++ [closing .brace])
  | .command name required optional =>
    (.command, name) ::
      ((if optional.isEmpty then []
        else opening .bracket :: (siblings (some .bracket) optional ++ [closing .bracket])) ++
        arguments required)
  | .foreign _ _ => []

def siblings (inside : Option Delimiter) : List Node → List Shape
  | [] => []
  | [n] => shapes n
  | n :: m :: rest => shapes n ++ separator inside :: siblings inside (m :: rest)

/-- A group of several children is the content of its braces; any other node is their only
content. -/
def arguments : List Node → List Shape
  | [] => []
  | n :: rest =>
    opening .brace ::
      ((match n with
        | .text content => if content = "" then [] else [textShape content]
        | .group (first :: second :: others) => siblings (some .brace) (first :: second :: others)
        | n => shapes n) ++ closing .brace :: arguments rest)

end

def source : Node → String
  | .group nodes => String.ofList ((siblings none nodes).flatMap spelling)
  | _ => ""

def argument : Node → List Shape
  | .text content => if content = "" then [] else [textShape content]
  | .group (first :: second :: others) => siblings (some .brace) (first :: second :: others)
  | n => shapes n

theorem arguments_cons (n : Node) (rest : List Node) :
    arguments (n :: rest) =
      opening .brace :: (argument n ++ closing .brace :: arguments rest) := by
  rw [arguments.eq_def]
  rfl

def ReadBack (ws : List Shape) : Prop :=
  ∀ rest vs, (∀ c ∈ rest.head?, endsText c) → Scans rest vs →
    Scans (ws.flatMap spelling ++ rest) (ws ++ vs)

def Delimits (a : Shape) : Prop := ∃ d, a = opening d ∨ a = closing d

theorem Delimits.lexeme {a : Shape} (h : Delimits a) (rest : List Char) :
    Lexeme (spelling a) (some a) rest := by
  obtain ⟨d, rfl | rfl⟩ := h <;> cases d <;> exact .delimiter rfl

theorem Delimits.head {a : Shape} (h : Delimits a) (cs : List Char) :
    ∀ c ∈ (spelling a ++ cs).head?, endsText c := by
  obtain ⟨d, rfl | rfl⟩ := h <;> cases d <;> simp [spelling, opening, closing, Delimiter.opening,
    Delimiter.closing, endsText]

theorem delimits_separator (inside : Option Delimiter) : Delimits (separator inside) := by
  rw [separator.eq_def]
  split
  · exact ⟨.brace, .inr rfl⟩
  · exact ⟨.bracket, .inr rfl⟩

namespace ReadBack

theorem nil : ReadBack [] := fun _ _ _ hs => hs

theorem leaf {a : Shape} (hp : Proper a) (ho : ¬ OpenEnded a) : ReadBack [a] := by
  intro rest vs hr hs
  rw [List.flatMap_singleton]
  refine .cons (hp.lexeme (fun _ => hr) (fun _ _ c hc => ?_) (fun h => absurd h ho)) hs
  exact not_isLetter_of_endsText (hr c hc)

theorem delimited {xs ys : List Shape} {a : Shape} (hx : ReadBack xs) (ha : Delimits a)
    (hy : ReadBack ys) : ReadBack (xs ++ a :: ys) := by
  intro rest vs hr hs
  have h := hx _ _ (ha.head _) (.cons (ha.lexeme _) (hy rest vs hr hs))
  simpa using h

theorem siblings {inside : Option Delimiter} {nodes : List Node}
    (h : ∀ n ∈ nodes, ReadBack (shapes n)) : ReadBack (siblings inside nodes) := by
  induction nodes with
  | nil => exact nil
  | cons n rest ih =>
    rw [List.forall_mem_cons] at h
    cases rest with
    | nil => exact h.1
    | cons m rest => exact delimited h.1 (delimits_separator inside) (ih h.2)

theorem enclosed {d : Delimiter} {xs ys : List Shape} (hx : ReadBack xs) (hy : ReadBack ys) :
    ReadBack (opening d :: (xs ++ closing d :: ys)) :=
  delimited nil ⟨d, .inl rfl⟩ (delimited hx ⟨d, .inr rfl⟩ hy)

theorem arguments {nodes : List Node} (h : ∀ n ∈ nodes, ReadBack (argument n)) :
    ReadBack (arguments nodes) := by
  induction nodes with
  | nil => exact nil
  | cons n rest ih =>
    rw [List.forall_mem_cons] at h
    rw [arguments_cons]
    exact enclosed h.1 (ih h.2)

theorem command {name : String} {required optional : List Node} (hp : Proper (.command, name))
    (ho : ¬ OpenEnded (.command, name)) (hr : ∀ n ∈ required, ReadBack (argument n))
    (hs : ∀ n ∈ optional, ReadBack (shapes n)) :
    ReadBack (shapes (.command name required optional)) := by
  have hname : ReadBack [(.command, name)] := leaf hp ho
  rw [shapes]
  cases optional with
  | nil =>
    cases required with
    | nil => exact hname
    | cons n rest =>
      rw [List.forall_mem_cons] at hr
      rw [arguments_cons]
      exact delimited hname ⟨.brace, .inl rfl⟩
        (delimited hr.1 ⟨.brace, .inr rfl⟩ (arguments hr.2))
  | cons n rest =>
    have hopt : ReadBack (Printing.siblings (some .bracket) (n :: rest) ++
        closing .bracket :: Printing.arguments required) :=
      delimited (siblings hs) ⟨.bracket, .inr rfl⟩ (arguments hr)
    simpa using delimited hname ⟨.bracket, .inl rfl⟩ hopt

end ReadBack

end Printing

end TexHtml
