import TexHtml.Proofs.Printing

namespace TexHtml

namespace Printing

open Shape

mutual

inductive Printable : Nat → Node → Prop
  | text {k : Nat} {content : String} (hp : Proper (textShape content)) :
      Printable k (.text content)
  | math {k : Nat} {content : String} {display : Bool} (hp : Proper (.math display, content))
      (ho : ¬ OpenEnded (.math display, content)) : Printable k (.math content display)
  | group {j k : Nat} {children : List Node} (hj : j < k) (hc : ∀ n ∈ children, Printable j n) :
      Printable k (.group children)
  | command {i j k : Nat} {name : String} {required optional : List Node}
      (hp : Proper (.command, name)) (ho : ¬ OpenEnded (.command, name))
      (hi : i < k ∨ optional = []) (hs : ∀ n ∈ optional, Printable i n)
      (hj : j < k ∨ required = []) (hr : ∀ n ∈ required, PrintableArgument j n) :
      Printable k (.command name required optional)

inductive PrintableArgument : Nat → Node → Prop
  | empty {k : Nat} : PrintableArgument k (.text "")
  | single {k : Nat} {n : Node} (hn : Printable k n)
      (hg : ∀ first second others, n ≠ .group (first :: second :: others)) : PrintableArgument k n
  | several {k : Nat} {first second : Node} {others : List Node}
      (hc : ∀ n ∈ first :: second :: others, Printable k n) :
      PrintableArgument k (.group (first :: second :: others))

end

theorem textShape_not_openEnded (content : String) : ¬ OpenEnded (textShape content) := by
  rw [textShape]
  split <;> simp [OpenEnded]

theorem argument_single {k : Nat} {n : Node} (hn : Printable k n)
    (hg : ∀ first second others, n ≠ .group (first :: second :: others)) :
    argument n = shapes n := by
  cases hn with
  | @text _ content hp =>
    have hne : content ≠ "" := by
      rintro rfl
      exact hp.1 rfl
    rw [argument, if_neg hne, shapes]
  | @group _ _ children hj hc =>
    rcases children with _ | ⟨first, _ | ⟨second, others⟩⟩
    · rfl
    · rfl
    · exact absurd rfl (hg first second others)
  | math => rfl
  | command => rfl

mutual

theorem Printable.readBack {k : Nat} {n : Node} (h : Printable k n) : ReadBack (shapes n) := by
  match h with
  | .text hp =>
    rw [shapes]
    exact .leaf hp (textShape_not_openEnded _)
  | .math hp ho =>
    rw [shapes]
    exact .leaf hp ho
  | .group hj hc =>
    rw [shapes]
    exact .enclosed (.siblings fun n hn => (hc n hn).readBack) .nil
  | .command hp ho hi hs hj hr =>
    exact .command hp ho (fun n hn => (hr n hn).readBack) fun n hn => (hs n hn).readBack

theorem PrintableArgument.readBack {k : Nat} {n : Node} (h : PrintableArgument k n) :
    ReadBack (argument n) := by
  match h with
  | .empty => exact .nil
  | .single hn hg =>
    rw [argument_single hn hg]
    exact hn.readBack
  | .several hc => exact .siblings fun n hn => (hc n hn).readBack

end

theorem Printable.mono {j k : Nat} {n : Node} (h : Printable j n) (hjk : j ≤ k) :
    Printable k n := by
  cases h with
  | text hp => exact .text hp
  | math hp ho => exact .math hp ho
  | group hj hc => exact .group (by omega) hc
  | command hp ho hi hs hj hr =>
    exact .command hp ho (hi.imp_left (by omega)) hs (hj.imp_left (by omega)) hr

/-- A group of several nodes that is alone in its braces is printed without braces of its own, one
level less deep. -/
theorem Printable.toArgument {k : Nat} {n : Node} (h : Printable k n) : PrintableArgument k n := by
  by_cases hg : ∃ first second others, n = .group (first :: second :: others)
  · obtain ⟨first, second, others, rfl⟩ := hg
    cases h with
    | group hj hc => exact .several fun m hm => (hc m hm).mono (Nat.le_of_lt hj)
  · refine .single h ?_
    rintro first second others rfl
    exact hg ⟨first, second, others, rfl⟩

theorem PrintableArgument.of_argument {k : Nat} {children : List Node} {n : Node}
    (h : Grammar.Argument children n) (hc : ∀ m ∈ children, Printable k m) :
    PrintableArgument k n := by
  cases h with
  | empty => exact .empty
  | single n => exact (hc n (by simp)).toArgument
  | several first second others => exact .several hc

theorem PrintableArgument.of_arguments {k : Nat} {required : List (List Node)} {nodes : List Node}
    (h : List.Forall₂ Grammar.Argument required nodes)
    (hc : ∀ children ∈ required, ∀ m ∈ children, Printable k m) :
    ∀ n ∈ nodes, PrintableArgument k n := by
  induction h with
  | nil => simp
  | cons first rest ih =>
    rw [List.forall_mem_cons] at hc ⊢
    exact ⟨.of_argument first hc.1, ih hc.2⟩

def OpenNode (n : Node) : Prop := n = .command "" [] [] ∨ n = .math "" false

inductive PrintableNodes (k : Nat) (atEnd : Prop) : List Node → Prop
  | nil : PrintableNodes k atEnd []
  | last {n : Node} (ha : atEnd) (hn : OpenNode n) : PrintableNodes k atEnd [n]
  | cons {n : Node} {nodes : List Node} (hn : Printable k n) (rest : PrintableNodes k atEnd nodes) :
      PrintableNodes k atEnd (n :: nodes)

namespace PrintableNodes

theorem mono {j k : Nat} {atEnd : Prop} {nodes : List Node} (h : PrintableNodes j atEnd nodes)
    (hjk : j ≤ k) : PrintableNodes k atEnd nodes := by
  induction h with
  | nil => exact .nil
  | last ha hn => exact .last ha hn
  | cons hn rest ih => exact .cons (hn.mono hjk) ih

theorem printable {k : Nat} {atEnd : Prop} {nodes : List Node} (h : PrintableNodes k atEnd nodes)
    (ha : ¬ atEnd) : ∀ n ∈ nodes, Printable k n := by
  induction h with
  | nil => simp
  | last hend hn => exact absurd hend ha
  | cons hn rest ih => exact List.forall_mem_cons.mpr ⟨hn, ih⟩

theorem scans {k : Nat} {atEnd : Prop} {nodes : List Node} (h : PrintableNodes k atEnd nodes) :
    Scans ((siblings none nodes).flatMap spelling) (siblings none nodes ++ [(.endOfInput, "")]) := by
  induction h with
  | nil => exact .nil
  | @last n ha hn =>
    obtain ⟨a, hs, hp⟩ : ∃ a, siblings none [n] = [a] ∧ Proper a := by
      rcases hn with rfl | rfl
      · exact ⟨(.command, ""), by simp [siblings, shapes, arguments], .inr (.inr (.inr rfl))⟩
      · exact ⟨(.math false, ""), by simp [siblings, shapes], by simp [Proper]⟩
    rw [hs, List.flatMap_singleton, ← List.append_nil (spelling a)]
    exact .cons (hp.lexeme (by simp) (by simp) (fun _ => rfl)) .nil
  | @cons n nodes hn rest ih =>
    cases nodes with
    | nil => simpa [siblings] using hn.readBack [] _ (by simp) .nil
    | cons m nodes =>
      have hd : Delimits (separator none) := delimits_separator none
      simpa [siblings] using hn.readBack _ _ (hd.head _) (.cons (hd.lexeme _) ih)

end PrintableNodes

end Printing

end TexHtml
