import TexHtml.Proofs.Contents
import TexHtml.Proofs.DerivedNodes
import TexHtml.Proofs.Rendering

namespace TexHtml

open Shape

@[elab_as_elim]
theorem Node.induction {P : Node → Prop} (text : ∀ content, P (.text content))
    (math : ∀ content display, P (.math content display))
    (group : ∀ children, (∀ n ∈ children, P n) → P (.group children))
    (command : ∀ name required optional, (∀ n ∈ required, P n) → (∀ n ∈ optional, P n) →
      P (.command name required optional))
    (foreign : ∀ typeName kind, P (.foreign typeName kind)) (n : Node) : P n :=
  @Node.rec P (fun nodes => ∀ n ∈ nodes, P n) text math group command foreign
    (fun _ hm => absurd hm List.not_mem_nil)
    (fun _ _ hn hrest => List.forall_mem_cons.mpr ⟨hn, hrest⟩) n

namespace Html

def wraps (name : String) : Bool := (wrappingCommands.lookup name).isSome

theorem wraps_of_mem {name opening closing : String}
    (h : (name, opening, closing) ∈ wrappingCommands) : wraps name := by
  have htable : ∀ e ∈ wrappingCommands, wraps e.1 := by decide
  exact htable _ h

def showsArgument (name : String) : Bool := wraps name || name = "author"

mutual

/-- The nodes that are rendered along with a node, itself first. Of the arguments of a command this
is the first required one, and only if the command shows it. -/
def visited : Node → List Node
  | .group children => .group children :: visitedAll children
  | .command name required optional =>
    .command name required optional ::
      (if showsArgument name then visitedFirst required else [])
  | n => [n]

def visitedAll : List Node → List Node
  | [] => []
  | n :: rest => visited n ++ visitedAll rest

def visitedFirst : List Node → List Node
  | [] => []
  | n :: _ => visited n

end

theorem mem_visited_self (n : Node) : n ∈ visited n := by
  cases n <;> exact List.mem_cons_self

theorem mem_visitedAll {m : Node} {nodes : List Node} :
    m ∈ visitedAll nodes ↔ ∃ n ∈ nodes, m ∈ visited n := by
  induction nodes with
  | nil => simp [visitedAll]
  | cons n rest ih => simp [visitedAll, ih]

theorem mem_visitedFirst {m : Node} {nodes : List Node} :
    m ∈ visitedFirst nodes ↔ ∃ n ∈ nodes.head?, m ∈ visited n := by
  cases nodes <;> simp [visitedFirst]

theorem visited_subset_group {n : Node} {children : List Node} (h : n ∈ children) :
    visited n ⊆ visited (.group children) := by
  intro m hm
  exact List.mem_cons_of_mem _ (mem_visitedAll.mpr ⟨n, h, hm⟩)

theorem visited_subset_command {name : String} (h : showsArgument name) (argument : Node)
    (others optional : List Node) :
    visited argument ⊆ visited (.command name (argument :: others) optional) := by
  intro m hm
  simp [visited, visitedFirst, h, hm]

theorem visited_subset_of_mem {m n : Node} (h : m ∈ visited n) : visited m ⊆ visited n := by
  induction n using Node.induction with
  | text content => rw [List.mem_singleton.mp h]; exact List.Subset.refl _
  | math content display => rw [List.mem_singleton.mp h]; exact List.Subset.refl _
  | foreign typeName kind => rw [List.mem_singleton.mp h]; exact List.Subset.refl _
  | group children ih =>
    rcases List.mem_cons.mp h with rfl | h
    · exact List.Subset.refl _
    obtain ⟨n, hn, hm⟩ := mem_visitedAll.mp h
    exact List.Subset.trans (ih n hn hm) (visited_subset_group hn)
  | command name required optional ihr iho =>
    rcases List.mem_cons.mp h with rfl | h
    · exact List.Subset.refl _
    split at h
    · rename_i hshows
      cases required with
      | nil => exact absurd h List.not_mem_nil
      | cons argument others =>
        exact List.Subset.trans (ihr argument List.mem_cons_self h)
          (visited_subset_command hshows argument others optional)
    · exact absurd h List.not_mem_nil

theorem mem_flattenAll {m : Node} {nodes : List Node} :
    m ∈ Node.flattenAll nodes ↔ ∃ n ∈ nodes, m ∈ n.flatten := by
  induction nodes with
  | nil => simp [Node.flattenAll]
  | cons n rest ih => simp [Node.flattenAll, ih]

theorem visited_subset_flatten (n : Node) : visited n ⊆ n.flatten := by
  induction n using Node.induction with
  | text content => exact List.Subset.refl _
  | math content display => exact List.Subset.refl _
  | foreign typeName kind => exact List.Subset.refl _
  | group children ih =>
    apply List.cons_subset_cons
    intro m hm
    obtain ⟨n, hn, hmn⟩ := mem_visitedAll.mp hm
    exact mem_flattenAll.mpr ⟨n, hn, ih n hn hmn⟩
  | command name required optional ihr iho =>
    apply List.cons_subset_cons
    intro m hm
    have hfirst : m ∈ visitedFirst required := by
      split at hm
      · exact hm
      · exact absurd hm List.not_mem_nil
    obtain ⟨n, hn, hmn⟩ := mem_visitedFirst.mp hfirst
    have hr : n ∈ required := List.mem_of_mem_head? hn
    exact List.mem_append_right _ (mem_flattenAll.mpr ⟨n, hr, ihr n hr hmn⟩)

inductive Boundary where
  | opening (environment : String)
  | closing (environment : String)
  deriving DecidableEq

def boundary? : Node → Option Boundary
  | .command name (argument :: _) _ =>
    if name = "begin" then some (.opening argument.literalText)
    else if name = "end" then some (.closing argument.literalText)
    else none
  | _ => none

theorem boundary?_eq_some {n : Node} {b : Boundary} (h : boundary? n = some b) :
    ∃ argument others optional,
      (n = .command "begin" (argument :: others) optional ∧ b = .opening argument.literalText) ∨
        (n = .command "end" (argument :: others) optional ∧ b = .closing argument.literalText) := by
  cases n with
  | command name required optional =>
    cases required with
    | nil => cases h
    | cons argument others =>
      refine ⟨argument, others, optional, ?_⟩
      rw [boundary?] at h
      split at h
      · rename_i hname
        rw [hname]
        exact .inl ⟨rfl, (Option.some.inj h).symm⟩
      · split at h
        · rename_i hname
          rw [hname]
          exact .inr ⟨rfl, (Option.some.inj h).symm⟩
        · cases h
  | _ => cases h

end Html

theorem exists_tokenize (source : String) :
    ∃ ts e, tokenize source = ts ++ [e] ∧ e.kind = .endOfInput ∧ ∀ t ∈ ts, Proper t.shape := by
  have hformed : WellFormed ((tokenize source).map Token.shape) := (scans_iff.mpr rfl).wellFormed
  obtain ⟨ts, e, htokens, he, hproper, -⟩ := Printing.exists_init hformed
  exact ⟨ts, e, htokens, he, hproper⟩

section Source

variable {source : String} {limit : Int} {document : Node}

theorem elements_of_parse_tokenize (h : parse (tokenize source) limit = .ok document) :
    ∃ ts e nodes k, tokenize source = ts ++ [e] ∧ e.kind = .endOfInput ∧ document = .group nodes ∧
      Grammar.Elements none ts nodes k := by
  obtain ⟨nodes, k, rfl, helements, -⟩ := Grammar.elements_of_parse h
  obtain ⟨ts, e, htokens, he, hproper⟩ := exists_tokenize source
  have hends : ∀ t ∈ ts, t.kind ≠ .endOfInput := by
    intro t ht hk
    have hp := hproper t ht
    rw [Token.shape, hk] at hp
    exact hp
  have hend : Reading.Ends none [e] := .inl he
  rw [htokens, Grammar.beforeEnd_append_ends hend hends] at helements
  exact ⟨ts, e, nodes, k, htokens, he, rfl, helements⟩

theorem items_of_parse_tokenize (h : parse (tokenize source) limit = .ok document) :
    document.flatten.filterMap Node.item? = (tokenize source).filterMap Token.item? := by
  obtain ⟨ts, e, nodes, k, htokens, he, rfl, helements⟩ := elements_of_parse_tokenize h
  have hitem : e.item? = none := by simp [Token.item?, he]
  rw [htokens, List.filterMap_append, ← helements.items_eq, Node.flatten,
    List.filterMap_cons_none rfl, Grammar.items]
  simp [hitem]

theorem exists_token_of_item (h : parse (tokenize source) limit = .ok document) {n : Node}
    (hn : n ∈ document.flatten) {i : Item} (hi : n.item? = some i) :
    ∃ t ∈ tokenize source, t.item? = some i := by
  have hm : i ∈ document.flatten.filterMap Node.item? := List.mem_filterMap.mpr ⟨n, hn, hi⟩
  rw [items_of_parse_tokenize h] at hm
  exact List.mem_filterMap.mp hm

def Node.Scanned : Node → Prop
  | .command name _ _ => Proper (.command, name)
  | .foreign _ _ => False
  | _ => True

theorem scanned_of_parse (h : parse (tokenize source) limit = .ok document) :
    ∀ n ∈ document.flatten, n.Scanned := by
  intro n hn
  cases n with
  | command name required optional =>
    obtain ⟨t, ht, hi⟩ := exists_token_of_item h hn rfl
    obtain ⟨ts, e, htokens, he, hproper⟩ := exists_tokenize source
    obtain ⟨hk, hc⟩ : t.kind = .command ∧ t.content = name := by
      revert hi
      rw [Token.item?]
      split <;> simp_all
    have hts : t ∈ ts := by
      rw [htokens, List.mem_append, List.mem_singleton] at ht
      refine ht.resolve_right ?_
      rintro rfl
      rw [hk] at he
      cases he
    have hp := hproper t hts
    rwa [Token.shape, hk, hc] at hp
  | foreign typeName kind =>
    obtain ⟨t, -, hi⟩ := exists_token_of_item h hn rfl
    revert hi
    rw [Token.item?]
    split <;> simp
  | _ => trivial

end Source

/-- A character of a command's name that is no letter has no other character beside it. -/
theorem Shape.Proper.eq_of_not_isLetter {name : String} (h : Proper (.command, name)) {x y : Char}
    (hx : x ∈ name.toList) (hl : Text.isLetter x = false) (hy : y ∈ name.toList) : y = x := by
  rcases h with hword | rfl | ⟨c, rfl, -, -⟩ | rfl
  · simp [hword.2 x hx] at hl
  · simp_all
  · simp_all
  · simp at hx

theorem Shape.Proper.not_infix_comment {name : String} (h : Proper (.command, name))
    {mark : List Char} {x y : Char} (hx : x ∈ mark) (hy : y ∈ mark) (hxy : y ≠ x)
    (hl : Text.isLetter x = false) (hxc : x ∉ " Unknown command: ".toList)
    (hyc : y ∉ " Unknown command: ".toList) :
    ¬ mark <:+: (" Unknown command: " ++ name ++ " ").toList := by
  have hblank : ' ' ∈ " Unknown command: ".toList := by decide
  have hname {c : Char} (hm : c ∈ (" Unknown command: " ++ name ++ " ").toList)
      (hc : c ∉ " Unknown command: ".toList) : c ∈ name.toList := by
    rw [String.toList_append, String.toList_append, List.mem_append, List.mem_append] at hm
    rcases hm with (hm | hm) | hm
    · exact absurd hm hc
    · exact hm
    · rw [List.mem_singleton.mp hm] at hc
      exact absurd hblank hc
  intro hi
  exact hxy (h.eq_of_not_isLetter (hname (hi.subset hx) hxc) hl (hname (hi.subset hy) hyc))

end TexHtml
