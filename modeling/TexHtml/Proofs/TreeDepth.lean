import TexHtml.Proofs.Rendering
import TexHtml.Proofs.Reprinting
import TexHtml.Proofs.Session

namespace TexHtml

namespace Node

def children : Node → List Node
  | group children => children
  | command _ required optional => optional ++ required
  | _ => []

theorem heightBelow_le_iff {nodes : List Node} {k : Nat} :
    heightBelow nodes ≤ k ↔ ∀ n ∈ nodes, n.height < k := by
  induction nodes with
  | nil => simp [heightBelow]
  | cons n rest ih =>
    rw [heightBelow, Nat.max_le, ih, List.forall_mem_cons]
    rfl

theorem height_le_iff {n : Node} {k : Nat} : n.height ≤ k ↔ ∀ m ∈ n.children, m.height < k := by
  cases n with
  | group children => exact heightBelow_le_iff
  | command name required optional =>
    rw [height, Nat.max_le, heightBelow_le_iff, heightBelow_le_iff, children,
      List.forall_mem_append]
  | _ => simp [height, children]

theorem height_lt_of_mem_children {n m : Node} (h : m ∈ n.children) : m.height < n.height :=
  height_le_iff.mp (Nat.le_refl _) m h

end Node

namespace Grammar

theorem Argument.height_le {nodes : List Node} {argument : Node} {j : Nat}
    (h : Argument nodes argument) (hn : ∀ n ∈ nodes, n.height ≤ 2 * j) :
    argument.height ≤ 2 * j + 1 := by
  cases h with
  | empty => exact Nat.zero_le _
  | single =>
    have hle := hn argument (List.mem_singleton_self argument)
    omega
  | several first second others =>
    -- Here the delimiters give a node below the command: the second level of an open group.
    apply Node.height_le_iff.mpr
    intro n hmem
    have hle := hn n hmem
    omega

theorem arguments_height_le {required : List (List Node)} {arguments : List Node} {k : Nat}
    (ha : List.Forall₂ Argument required arguments)
    (hr : ∀ nodes ∈ required, ∃ j < k, ∀ n ∈ nodes, n.height ≤ 2 * j) :
    ∀ a ∈ arguments, a.height < 2 * k := by
  induction ha with
  | nil => simp
  | cons first rest ih =>
    rw [List.forall_mem_cons] at hr ⊢
    obtain ⟨j, hj, hn⟩ := hr.1
    have hfirst := first.height_le hn
    exact ⟨by omega, ih hr.2⟩

mutual

theorem Elements.height_le {inside : Option Delimiter} {ts : List Token} {nodes : List Node}
    {k : Nat} (h : Elements inside ts nodes k) : ∀ n ∈ nodes, n.height ≤ 2 * k := by
  match h with
  | .nil => simp
  | .text ht tail => exact List.forall_mem_cons.mpr ⟨Nat.zero_le _, tail.height_le⟩
  | .math ht tail => exact List.forall_mem_cons.mpr ⟨Nat.zero_le _, tail.height_le⟩
  | .newline ht tail => exact List.forall_mem_cons.mpr ⟨Nat.zero_le _, tail.height_le⟩
  | .stray ht hd tail => exact tail.height_le
  | .group first tail =>
    obtain ⟨i, hi, hchildren⟩ := first.height_le
    refine List.forall_mem_cons.mpr ⟨?_, ?_⟩
    · apply Node.height_le_iff.mpr
      intro n hn
      have hle := hchildren n hn
      omega
    · intro n hn
      have hle := tail.height_le n hn
      omega
  | .command ht hos ho hrs hr ha tail =>
    refine List.forall_mem_cons.mpr ⟨?_, ?_⟩
    · apply Node.height_le_iff.mpr
      refine List.forall_mem_append.mpr ⟨?_, ?_⟩
      · intro n hn
        obtain ⟨nodes, hnodes, hmem⟩ := List.mem_flatten.mp hn
        obtain ⟨i, hi, hchildren⟩ := hos.height_le nodes hnodes
        have hle := hchildren n hmem
        omega
      · intro n hn
        have hlt := arguments_height_le ha hrs.height_le n hn
        omega
    · intro n hn
      have hle := tail.height_le n hn
      omega

theorem Group.height_le {d : Delimiter} {gs : List Token} {children : List Node} {k : Nat}
    (h : Group d gs children k) : ∃ j < k, ∀ n ∈ children, n.height ≤ 2 * j := by
  match h with
  | .enclosed ho body hc => exact ⟨_, Nat.lt_succ_self _, body.height_le⟩

theorem Groups.height_le {d : Delimiter} {ts : List Token} {lists : List (List Node)} {k : Nat}
    (h : Groups d ts lists k) : ∀ children ∈ lists, ∃ j < k, ∀ n ∈ children, n.height ≤ 2 * j := by
  match h with
  | .nil => simp
  | .cons first tail =>
    refine List.forall_mem_cons.mpr ⟨?_, ?_⟩
    · obtain ⟨j, hj, hchildren⟩ := first.height_le
      exact ⟨j, by omega, hchildren⟩
    · intro children hmem
      obtain ⟨j, hj, hchildren⟩ := tail.height_le children hmem
      exact ⟨j, by omega, hchildren⟩

end

theorem Fits.le_max {limit : Int} {k : Nat} (h : Fits limit 0 k) : (k : Int) ≤ max limit 0 := by
  cases k with
  | zero => exact Int.le_max_right limit 0
  | succ k =>
    have hfit := h k (Nat.lt_succ_self k)
    omega

theorem height_of_parse {ts : List Token} {limit : Int} {document : Node}
    (h : parse ts limit = .ok document) : (document.height : Int) ≤ 2 * max limit 0 + 1 := by
  obtain ⟨nodes, k, rfl, helements, hfits⟩ := elements_of_parse h
  have hheight : (Node.group nodes).height ≤ 2 * k + 1 := by
    apply Node.height_le_iff.mpr
    intro n hn
    have hle := helements.height_le n hn
    omega
  have hdepth := hfits.le_max
  omega

end Grammar

def nested {α : Type} (step : (Node → Option α) → Node → Option α) : Nat → Node → Option α
  | 0, _ => none
  | k + 1, n => step (nested step k) n

def Computes {α : Type} (step : (Node → Option α) → Node → Option α) (f : Node → α) : Prop :=
  ∀ g n, (∀ m ∈ n.children, g m = some (f m)) → step g n = some (f n)

theorem nested_of_height_lt {α : Type} {step : (Node → Option α) → Node → Option α}
    {f : Node → α} (h : Computes step f) {n : Node} {k : Nat} (hk : n.height < k) :
    nested step k n = some (f n) := by
  induction k generalizing n with
  | zero => omega
  | succ k ih =>
    apply h
    intro m hm
    apply ih
    have hlt := Node.height_lt_of_mem_children hm
    omega

theorem mapM_eq_some {α β : Type} {g : α → Option β} {f : α → β} {xs : List α}
    (h : ∀ x ∈ xs, g x = some (f x)) : xs.mapM g = some (xs.map f) := by
  induction xs with
  | nil => rfl
  | cons x xs ih =>
    rw [List.forall_mem_cons] at h
    rw [List.mapM_cons, h.1, ih h.2]
    rfl

namespace Node

def flattenStep (go : Node → Option (List Node)) : Node → Option (List Node)
  | group children => do
    let below ← children.mapM go
    return group children :: below.flatten
  | command name required optional => do
    let before ← optional.mapM go
    let behind ← required.mapM go
    return command name required optional :: (before.flatten ++ behind.flatten)
  | n => some [n]

theorem flattenAll_eq (nodes : List Node) : flattenAll nodes = (nodes.map flatten).flatten := by
  induction nodes with
  | nil => rfl
  | cons n rest ih => rw [flattenAll, ih, List.map_cons, List.flatten_cons]

theorem computes_flatten : Computes flattenStep flatten := by
  intro go n h
  cases n with
  | group children =>
    have hbelow : children.mapM go = some (children.map flatten) := mapM_eq_some h
    simp [flattenStep, hbelow, flatten, flattenAll_eq]
  | command name required optional =>
    obtain ⟨ho, hr⟩ := List.forall_mem_append.mp h
    simp [flattenStep, mapM_eq_some ho, mapM_eq_some hr, flatten, flattenAll_eq]
  | _ => rfl

def outlineStep (go : Node → Option Value) : Node → Option Value
  | group children => do
    let below ← children.mapM go
    return .record [("type", .str "group"), ("children", .list below)]
  | command name required optional => do
    let behind ← required.mapM go
    let before ← optional.mapM go
    return .record [("type", .str "command"), ("name", .str name),
      ("required_args", .list behind), ("optional_args", .list before)]
  | n => some n.outline

theorem outlines_eq (nodes : List Node) : outlines nodes = nodes.map outline := by
  induction nodes with
  | nil => rfl
  | cons n rest ih => rw [outlines, ih, List.map_cons]

theorem computes_outline : Computes outlineStep outline := by
  intro go n h
  cases n with
  | group children =>
    have hbelow : children.mapM go = some (children.map outline) := mapM_eq_some h
    simp [outlineStep, hbelow, outline, outlines_eq]
  | command name required optional =>
    obtain ⟨ho, hr⟩ := List.forall_mem_append.mp h
    simp [outlineStep, mapM_eq_some ho, mapM_eq_some hr, outline, outlines_eq]
  | _ => rfl

theorem literalTextAll_eq (nodes : List Node) :
    literalTextAll nodes = String.join (nodes.map literalText) := by
  induction nodes with
  | nil => rfl
  | cons n rest ih => rw [literalTextAll, ih, List.map_cons, String.join_cons]

end Node

namespace Html

def renderStep (escaping : Bool) (go : Node → Option (String × String)) :
    Node → Option (String × String)
  | .group children => do
    let below ← children.mapM go
    return (String.join (below.map Prod.fst), String.join (below.map Prod.snd))
  | .command name (argument :: _) _ => do
    let first ← go argument
    return (command name (some first), "")
  | n => some (render escaping n, n.literalText)

theorem renderAll_eq (escaping : Bool) (nodes : List Node) :
    renderAll escaping nodes = nodes.map (render escaping) := by
  induction nodes with
  | nil => rfl
  | cons n rest ih => rw [renderAll_cons, ih, List.map_cons]

theorem computes_render (escaping : Bool) :
    Computes (renderStep escaping) fun n => (render escaping n, n.literalText) := by
  intro go n h
  cases n with
  | group children =>
    have hbelow : children.mapM go =
        some (children.map fun n => (render escaping n, n.literalText)) := mapM_eq_some h
    simp [renderStep, hbelow, renderAll_eq, Node.literalText, Node.literalTextAll_eq,
      Function.comp_def]
  | command name required optional =>
    cases required with
    | nil => rfl
    | cons argument others =>
      rw [renderStep, h argument (by simp [Node.children])]
      rfl
  | _ => rfl

end Html

namespace Printing

open Shape Grammar

def tower : Nat → Node
  | 0 => .text "x"
  | k + 1 => .command "a" [.group [tower k, .text " "]] []

theorem height_tower (k : Nat) : (tower k).height = 2 * k := by
  induction k with
  | zero => rfl
  | succ k ih =>
    simp only [tower, Node.height, Node.heightBelow, ih]
    omega

theorem printable_tower (k : Nat) : Printable k (tower k) := by
  induction k with
  | zero => exact .text (by decide)
  | succ k ih =>
    refine @Printable.command 0 k _ _ _ _ (by decide) (by decide) (.inr rfl) (by simp)
      (.inl (Nat.lt_succ_self k)) ?_
    rw [List.forall_mem_singleton]
    apply PrintableArgument.several
    rw [List.forall_mem_cons, List.forall_mem_singleton]
    exact ⟨ih, .text (by decide)⟩

theorem parse_source_of_printable {n : Node} {k : Nat} (h : Printable k n) :
    parse (tokenize (source (.group [n]))) k = .ok (.group [n]) := by
  have hshapes : (tokenize (source (.group [n]))).map Token.shape =
      shapes n ++ [(.endOfInput, "")] := by
    apply scans_iff.mp
    rw [source, String.toList_ofList, siblings, ← List.append_nil ((shapes n).flatMap spelling)]
    exact h.readBack [] _ (by simp) .nil
  obtain ⟨us, es, htokens, hu, hes⟩ := List.map_eq_append_iff.mp hshapes
  obtain ⟨e, rfl, he⟩ := List.map_eq_singleton_iff.mp hes
  obtain ⟨j, hj, helements⟩ :=
    h.derives none us [] [] hu (by simp [OpensWith]) ⟨0, Nat.zero_le k, .nil⟩
  rw [List.append_nil] at helements
  rw [htokens]
  refine @parse_of_elements _ _ _ j ?_ (fun m hm => by omega)
  rwa [beforeEnd_append_end (shape_eq_iff.mp he).1 helements.no_end]

end Printing

theorem depth_readSource (source : String) : (readSource source).2.depth ≤ 201 := by
  rw [readSource]
  split
  · rename_i document h
    have hheight : (document.height : Int) ≤ 2 * max 100 0 + 1 := Grammar.height_of_parse h
    show document.height ≤ 201
    omega
  · exact Nat.zero_le _

namespace Compiler

theorem depth_answer {c : Compiler} (h : c.stats.depth ≤ 201) (call : Call) :
    (c.answer call).2.stats.depth ≤ 201 := by
  rw [answer_snd]
  cases call.text? with
  | none => exact h
  | some source => exact depth_readSource source

theorem depth_answers {c : Compiler} (h : c.stats.depth ≤ 201) (calls : List Call) :
    (c.answers calls).2.stats.depth ≤ 201 := by
  induction calls generalizing c with
  | nil => exact h
  | cons call calls ih => exact ih (depth_answer h call)

end Compiler

/-- A document read under a limit is at most twice as deep and one level more, and so deep are the
calls inside one another that go through it. Under every limit there is a document as deep as
that. -/
theorem height_bounded_by_limit :
    (∀ ts limit document, parse ts limit = .ok document →
      (document.height : Int) ≤ 2 * max limit 0 + 1 ∧
        ∀ calls : Nat, 2 * max limit 0 + 1 < calls →
          (∀ escaping, nested (Html.renderStep escaping) calls document =
            some (Html.render escaping document, document.literalText)) ∧
          nested Node.outlineStep calls document = some document.outline ∧
          nested Node.flattenStep calls document = some document.flatten) ∧
      (∀ limit : Nat, ∃ source document, parse (tokenize source) limit = .ok document ∧
        document.height = 2 * limit + 1) ∧
      ∀ options c, Compiler.create options = .ok c →
        ∀ calls, (c.answers calls).2.stats.depth ≤ 201 := by
  refine ⟨?_, ?_, ?_⟩
  · intro ts limit document h
    have hheight := Grammar.height_of_parse h
    refine ⟨hheight, ?_⟩
    intro calls hcalls
    have hlt : document.height < calls := by omega
    exact ⟨fun escaping => nested_of_height_lt (Html.computes_render escaping) hlt,
      nested_of_height_lt Node.computes_outline hlt, nested_of_height_lt Node.computes_flatten hlt⟩
  · intro limit
    refine ⟨_, _, Printing.parse_source_of_printable (Printing.printable_tower limit), ?_⟩
    simp [Node.height, Node.heightBelow, Printing.height_tower]
  · intro options c hc calls
    apply Compiler.depth_answers
    rw [Compiler.stats_of_create hc]
    exact Nat.zero_le _

theorem height_bounded_by_limit_two :
    ∃ document, parse (tokenize "\\a\x7b\\a\x7bx\n\x7d\n\x7d") 2 = .ok document ∧
      document.height = 5 ∧ (document.height : Int) ≤ 2 * max 2 0 + 1 ∧
      nested Node.flattenStep 6 document = some document.flatten ∧
      (Compiler.answers ⟨.default, .zero⟩ [.stats]).2.stats.depth ≤ 201 := by
  have hread : (parse (tokenize "\\a\x7b\\a\x7bx\n\x7d\n\x7d") 2).map Node.height = .ok 5 := by
    decide +kernel
  have hcreate : Compiler.create (.table []) = .ok ⟨.default, .zero⟩ := rfl
  obtain ⟨document, hparse, hheight⟩ := exists_ok_of_map_eq_ok hread
  obtain ⟨hbound, -, hstats⟩ := height_bounded_by_limit
  obtain ⟨hle, hcalls⟩ := hbound _ _ document hparse
  exact ⟨document, hparse, hheight, hle, (hcalls 6 (by decide)).2.2, hstats _ _ hcreate _⟩

end TexHtml
