import Mathlib.Data.List.Basic
import TexHtml.Proofs.Fragment
import TexHtml.Proofs.Visiting

namespace TexHtml

def FirstUses (names list : List String) : Prop :=
  (∀ name, name ∈ list ↔ name ∈ names) ∧
    list.Pairwise fun a b => names.idxOf a < names.idxOf b

theorem FirstUses.step {names list : List String} (h : FirstUses names list) (name : String) :
    FirstUses (names ++ [name]) (if list.contains name then list else list ++ [name]) := by
  obtain ⟨hmem, horder⟩ := h
  have hkept : list.Pairwise fun a b => (names ++ [name]).idxOf a < (names ++ [name]).idxOf b := by
    apply horder.imp_of_mem
    intro a b ha hb hab
    rwa [List.idxOf_append_of_mem ((hmem a).mp ha), List.idxOf_append_of_mem ((hmem b).mp hb)]
  by_cases hn : name ∈ list
  · rw [if_pos (List.contains_iff_mem.mpr hn)]
    refine ⟨fun other => ?_, hkept⟩
    have hnames := (hmem name).mp hn
    rw [hmem, List.mem_append, List.mem_singleton]
    constructor
    · exact .inl
    · rintro (ho | rfl)
      · exact ho
      · exact hnames
  · rw [if_neg (fun hc => hn (List.contains_iff_mem.mp hc))]
    refine ⟨fun other => by simp [hmem], ?_⟩
    apply List.pairwise_append.mpr
    refine ⟨hkept, List.pairwise_singleton _ _, ?_⟩
    intro a ha b hb
    have hnames : name ∉ names := fun hm => hn ((hmem name).mpr hm)
    have hanames : a ∈ names := (hmem a).mp ha
    rw [List.mem_singleton.mp hb, List.idxOf_append_of_mem hanames,
      List.idxOf_append_of_notMem hnames]
    have hlt := List.idxOf_lt_length_of_mem hanames
    omega

theorem firstUses_distinct (names : List String) : FirstUses names (distinct names) := by
  have hrun : ∀ (rest seen list : List String), FirstUses seen list →
      FirstUses (seen ++ rest) (rest.foldl
        (fun seen name => if seen.contains name then seen else seen ++ [name]) list) := by
    intro rest
    induction rest with
    | nil =>
      intro seen list h
      simpa using h
    | cons name rest ih =>
      intro seen list h
      rw [List.foldl_cons, ← List.singleton_append, ← List.append_assoc]
      exact ih _ _ (h.step name)
  exact hrun names [] [] ⟨fun name => Iff.rfl, .nil⟩

def unknownUses (source : String) : List String :=
  (((tokenize source).filter fun t => t.kind = .command).map Token.content).filter fun name =>
    !Html.isKnownCommand name

def Item.unknownName? : Item → Option String
  | .command name => if Html.isKnownCommand name then none else some name
  | _ => none

theorem Node.unknownName?_eq (n : Node) : n.unknownName? = n.item?.bind Item.unknownName? := by
  cases n with
  | text content =>
    rw [Node.item?]
    split <;> rfl
  | _ => rfl

theorem Token.unknownName?_eq (t : Token) :
    t.item?.bind Item.unknownName? =
      if t.kind = .command then Item.unknownName? (.command t.content) else none := by
  obtain ⟨kind, content, location⟩ := t
  cases kind with
  | text => by_cases hc : content = "" <;> simp [Token.item?, Item.unknownName?, hc]
  | _ => simp [Token.item?, Item.unknownName?]

theorem filterMap_unknownName? (ts : List Token) :
    ts.filterMap (fun t => t.item?.bind Item.unknownName?) =
      ((ts.filter fun t => t.kind = .command).map Token.content).filter fun name =>
        !Html.isKnownCommand name := by
  induction ts with
  | nil => rfl
  | cons t ts ih =>
    rw [List.filterMap_cons, ih, Token.unknownName?_eq]
    by_cases hk : t.kind = .command
    · by_cases hn : Html.isKnownCommand t.content <;> simp [Item.unknownName?, hk, hn]
    · simp [hk]

theorem unknownName?_of_parse {source : String} {limit : Int} {document : Node}
    (h : parse (tokenize source) limit = .ok document) :
    document.flatten.filterMap Node.unknownName? = unknownUses source := by
  have hnodes : document.flatten.filterMap Node.unknownName? =
      (document.flatten.filterMap Node.item?).filterMap Item.unknownName? := by
    rw [List.filterMap_filterMap]
    exact List.filterMap_congr fun n _ => n.unknownName?_eq
  rw [hnodes, items_of_parse_tokenize h, List.filterMap_filterMap, filterMap_unknownName?, unknownUses]

namespace Html

theorem third_append {s : String} (h : 2 < s.toList.length) (t : String) :
    (s ++ t).toList[2]? = s.toList[2]? := by
  rw [String.toList_append, List.getElem?_append_left h]

theorem third_beginEnvironment (name : String) : (beginEnvironment name).toList[2]? ≠ some '-' := by
  have htable : ∀ e ∈ openingTags, e.2.toList[2]? ≠ some '-' := by decide
  rw [beginEnvironment]
  split
  · rename_i html hhtml
    exact htable (name, html) (mem_of_lookup hhtml)
  · rw [String.append_assoc, third_append (by decide)]
    decide

theorem third_endEnvironment (name : String) : (endEnvironment name).toList[2]? ≠ some '-' := by
  have htable : ∀ e ∈ closingTags, e.2.toList[2]? ≠ some '-' := by decide
  rw [endEnvironment]
  cases h : closingTags.lookup name with
  | none => decide
  | some html => exact htable (name, html) (mem_of_lookup h)

theorem Form.eq_of_unknownCommand {name shown : String} {f : Option (String × String) → String}
    (h : Form name f) {argument : Option (String × String)}
    (he : f argument = unknownCommand shown) : isKnownCommand name = false ∧ name = shown := by
  have hthird : (f argument).toList[2]? = some '-' := by
    rw [he, unknownCommand_eq, String.append_assoc, third_append (by decide)]
    decide
  cases h with
  | unknown h =>
    refine ⟨h, ?_⟩
    have hfront := (String.append_left_inj " -->").mp he
    exact (String.append_right_inj "<!-- Unknown command: ").mp hfront
  | @fixed _ html h =>
    have htable : ∀ e ∈ fixedCommands, e.2.toList[2]? ≠ some '-' := by decide
    exact absurd hthird (htable (name, html) h)
  | @wrapping _ opening closing h =>
    have htable : ∀ e ∈ wrappingCommands, 2 < e.2.1.toList.length ∧ e.2.1.toList[2]? ≠ some '-' := by
      decide
    obtain ⟨hlength, hopening⟩ := htable _ h
    cases argument with
    | none => cases hthird
    | some a =>
      simp only [Option.elim_some, String.append_assoc] at hthird
      rw [third_append hlength] at hthird
      exact absurd hthird hopening
  | author =>
    cases argument with
    | none => cases hthird
    | some a =>
      simp only [Option.elim_some, String.append_assoc] at hthird
      rw [third_append (by decide)] at hthird
      exact absurd hthird (by decide)
  | opening =>
    cases argument with
    | none => cases hthird
    | some a => exact absurd hthird (third_beginEnvironment a.2)
  | closing =>
    cases argument with
    | none => cases hthird
    | some a => exact absurd hthird (third_endEnvironment a.2)

end Html

/-- Exactly the unknown commands of a source that can be read are listed, wherever they stand, and
only these are rendered as unknown. -/
theorem unknown_commands_listed (c : Compiler) (source : String) :
    ∃ listed report, (c.parseResult (.str source)).2.stats.unknown = listed ∧
      (c.validate (.str source)).1 = .ok report ∧ report.stats.unknown = listed ∧
      report.warnings = listed.map ("Unknown command: " ++ ·) ∧
      (∀ document, (c.parseResult (.str source)).1 = .ok (.ok document) →
        FirstUses (unknownUses source) listed ∧
          ∀ escaping name required optional shown,
            .command name required optional ∈ Html.visited document →
            Html.render escaping (.command name required optional) = Html.unknownCommand shown →
            shown ∈ listed) ∧
      ∀ e, (c.parseResult (.str source)).1 = .ok (.error e) → listed = [] := by
  refine ⟨_, _, rfl, rfl, rfl, rfl, ?_, ?_⟩
  · intro document hresult
    rw [Compiler.parseResult_str] at hresult ⊢
    have hparse : parse (tokenize source) nestingLimit = .ok document := Except.ok.inj hresult
    have hlisted : (readSource source).2.unknown = distinct (unknownUses source) := by
      simp only [readSource, hparse, Node.unknownCommands, unknownName?_of_parse hparse]
    have huses := firstUses_distinct (unknownUses source)
    rw [hlisted]
    refine ⟨huses, ?_⟩
    intro escaping name required optional shown hvisited hrender
    obtain ⟨hunknown, rfl⟩ := (Html.form name).eq_of_unknownCommand hrender
    apply (huses.1 name).mpr
    rw [← unknownName?_of_parse hparse]
    refine List.mem_filterMap.mpr ⟨_, Html.visited_subset_flatten document hvisited, ?_⟩
    simp [Node.unknownName?, hunknown]
  · intro e hresult
    rw [Compiler.parseResult_str] at hresult ⊢
    have hparse : parse (tokenize source) nestingLimit = .error e := Except.ok.inj hresult
    simp only [readSource, hparse]

def scatteredUses : String := "\\b[\\a]\x7b\\textbf\x7b\\c\x7d\x7d\x7b\\a\\b\x7d\\item[\\>]"

theorem unknown_commands_listed_scattered :
    ∃ document report,
      (Compiler.parseResult ⟨.default, .zero⟩ (.str scatteredUses)).1 = .ok (.ok document) ∧
        FirstUses (unknownUses scatteredUses) ["b", "a", "c", ">"] ∧
        (Compiler.validate ⟨.default, .zero⟩ (.str scatteredUses)).1 = .ok report ∧
        report.warnings = ["Unknown command: b", "Unknown command: a", "Unknown command: c",
          "Unknown command: >"] := by
  have hunknown : (readSource scatteredUses).2.unknown = ["b", "a", "c", ">"] := by decide +kernel
  obtain ⟨listed, report, hlisted, hreport, -, hwarnings, hread, hfailed⟩ :=
    unknown_commands_listed ⟨.default, .zero⟩ scatteredUses
  rw [Compiler.parseResult_str] at hlisted hread hfailed ⊢
  rw [← show _ = listed from hlisted, hunknown] at hwarnings hread hfailed
  cases hparse : parse (tokenize scatteredUses) nestingLimit with
  | error e => cases hfailed e (congrArg Except.ok hparse)
  | ok document =>
    exact ⟨document, report, rfl, (hread document (congrArg Except.ok hparse)).1, hreport, hwarnings⟩

end TexHtml
