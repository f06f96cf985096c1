import TexHtml.Proofs.GrammarSound

namespace TexHtml

inductive Item where
  | command (name : String)
  | text (content : String)
  | math (content : String) (display : Bool)
  | foreign (typeName : String)
  deriving DecidableEq

def Node.item? : Node → Option Item
  | .text content => if content = "" then none else some (.text content)
  | .math content display => some (.math content display)
  | .group _ => none
  | .command name _ _ => some (.command name)
  | .foreign typeName _ => some (.foreign typeName)

def Token.item? (t : Token) : Option Item :=
  match t.kind with
  | .command => some (.command t.content)
  | .text => if t.content = "" then none else some (.text t.content)
  | .math display => some (.math t.content display)
  | .newline => some (.text " ")
  | .opener _ | .closer _ | .endOfInput => none

namespace Grammar

def items (nodes : List Node) : List Item := (Node.flattenAll nodes).filterMap Node.item?

@[simp] theorem items_nil : items [] = [] := rfl

theorem items_cons (n : Node) (nodes : List Node) :
    items (n :: nodes) = n.flatten.filterMap Node.item? ++ items nodes := by
  rw [items, Node.flattenAll, List.filterMap_append, items]

theorem items_append (ns ms : List Node) : items (ns ++ ms) = items ns ++ items ms := by
  induction ns with
  | nil => rfl
  | cons n ns ih => rw [List.cons_append, items_cons, items_cons, ih, List.append_assoc]

theorem items_leaf {n : Node} (h : n.flatten = [n]) (nodes : List Node) :
    items (n :: nodes) = n.item?.toList ++ items nodes := by
  rw [items_cons, h]
  cases hn : n.item? <;> simp [hn]

@[simp] theorem items_text (content : String) (nodes : List Node) :
    items (.text content :: nodes) = (Node.text content).item?.toList ++ items nodes :=
  items_leaf rfl nodes

@[simp] theorem items_math (content : String) (display : Bool) (nodes : List Node) :
    items (.math content display :: nodes) = .math content display :: items nodes :=
  items_leaf rfl nodes

@[simp] theorem items_group (children nodes : List Node) :
    items (.group children :: nodes) = items children ++ items nodes := by
  rw [items_cons, Node.flatten, List.filterMap_cons_none rfl]
  rfl

@[simp] theorem items_command (name : String) (required optional nodes : List Node) :
    items (.command name required optional :: nodes) =
      .command name :: (items optional ++ items required ++ items nodes) := by
  have hname : (Node.command name required optional).item? = some (.command name) := rfl
  rw [items_cons, Node.flatten, List.filterMap_cons_some hname, List.filterMap_append]
  rfl

theorem Argument.items_eq {children : List Node} {argument : Node} (h : Argument children argument) :
    items [argument] = items children := by
  cases h with
  | empty => rfl
  | single node => rfl
  | several first second others => rw [items_group, items_nil, List.append_nil]

theorem items_arguments {required : List (List Node)} {arguments : List Node}
    (h : List.Forall₂ Argument required arguments) : items arguments = items required.flatten := by
  induction h with
  | nil => rfl
  | @cons children argument required arguments first rest ih =>
    rw [List.flatten_cons, items_append, ← first.items_eq, ← ih, ← items_append,
      List.singleton_append]

mutual

theorem Elements.items_eq {inside : Option Delimiter} {ts : List Token} {nodes : List Node} {k : Nat}
    (h : Elements inside ts nodes k) : items nodes = ts.filterMap Token.item? := by
  match h with
  | .nil => rfl
  | @Elements.text _ t _ _ _ ht tail =>
    have hrest := tail.items_eq
    by_cases hc : t.content = "" <;> simp [Token.item?, Node.item?, ht, hc, hrest]
  | .math ht tail => simp [Token.item?, ht, tail.items_eq]
  | .newline ht tail => simp [Token.item?, Node.item?, ht, tail.items_eq]
  | .stray ht hd tail => simp [Token.item?, ht, tail.items_eq]
  | .group first tail => simp [first.items_eq, tail.items_eq]
  | .command ht hos ho hrs hr ha tail =>
    simp [Token.item?, ht, hos.items_eq, items_arguments ha, hrs.items_eq, tail.items_eq]

theorem Group.items_eq {d : Delimiter} {gs : List Token} {children : List Node} {k : Nat}
    (h : Group d gs children k) : items children = gs.filterMap Token.item? := by
  match h with
  | .enclosed ho body hc => simp [Token.item?, ho, hc, body.items_eq]

theorem Groups.items_eq {d : Delimiter} {ts : List Token} {lists : List (List Node)} {k : Nat}
    (h : Groups d ts lists k) : items lists.flatten = ts.filterMap Token.item? := by
  match h with
  | .nil => rfl
  | .cons first tail => simp [items_append, first.items_eq, tail.items_eq]

end

/-- A document that is read holds what the tokens hold, in the same order. -/
theorem flatten_items_of_parse {ts : List Token} {limit : Int} {document : Node}
    (h : parse ts limit = .ok document) :
    document.flatten.filterMap Node.item? = (beforeEnd ts).filterMap Token.item? := by
  obtain ⟨nodes, k, rfl, he, -⟩ := elements_of_parse h
  rw [← he.items_eq, Node.flatten, List.filterMap_cons_none rfl, items]

def scattered : List Token :=
  [(.command, "a"), (.opener .bracket, "["), (.text, "o"), (.closer .bracket, "]"),
    (.opener .brace, "\x7b"), (.text, ""), (.closer .brace, "\x7d"), (.opener .brace, "\x7b"),
    (.newline, "\n"), (.math true, "x"), (.closer .brace, "\x7d"), (.text, "b"), (.endOfInput, ""),
    (.text, "c")].map fun (a : TokenKind × String) => ⟨a.1, a.2, ⟨0, none, none⟩⟩

def scatteredTree : Node :=
  .group [.command "a" [.text "", .group [.text " ", .math "x" true]] [.text "o"], .text "b"]

theorem flatten_items_of_parse_scattered :
    parse scattered 1 = .ok scatteredTree ∧
      scatteredTree.flatten.filterMap Node.item? =
        [.command "a", .text "o", .text " ", .math "x" true, .text "b"] := by
  have h : parse scattered 1 = .ok scatteredTree := rfl
  exact ⟨h, (flatten_items_of_parse h).trans (by decide)⟩

end Grammar

end TexHtml
