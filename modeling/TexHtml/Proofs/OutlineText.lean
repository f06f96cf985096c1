import TexHtml.Proofs.FailedRuns
import TexHtml.Proofs.JsonLayouts
import TexHtml.Proofs.JsonReading
import TexHtml.Proofs.Session
import TexHtml.Proofs.TreeDepth
import TexHtml.Proofs.Visiting

namespace TexHtml

open Value

theorem Value.canonical_field {fields fields' : List (String × Value)}
    (hjson : IsJson false (.record fields))
    (h : (Value.record fields).canonical = (Value.record fields').canonical) {name : String}
    {x x' : Value} (hx : (name, x) ∈ fields) (hx' : (name, x') ∈ fields') :
    x.canonical = x'.canonical := by
  rw [canonical_record, canonical_record] at h
  have heq := record_injective h
  have hmem : (name, x.canonical) ∈
      (fields.mergeSort byName).map fun f => (f.1, canonical f.2) :=
    List.mem_map.mpr ⟨(name, x), List.mem_mergeSort.mpr hx, rfl⟩
  have hmem' : (name, x'.canonical) ∈
      (fields.mergeSort byName).map fun f => (f.1, canonical f.2) := by
    rw [heq]
    exact List.mem_map.mpr ⟨(name, x'), List.mem_mergeSort.mpr hx', rfl⟩
  have hsorted : (((fields.mergeSort byName).map fun f => (f.1, canonical f.2)).map
      Prod.fst).Nodup := by
    rw [List.map_map]
    exact (((List.mergeSort_perm fields byName).map Prod.fst).nodup_iff).mpr hjson.fields.1
  exact congrArg Prod.snd (List.inj_on_of_nodup_map hsorted hmem hmem' rfl)

namespace Node

theorem isJson_outlines {nodes : List Node} (h : ∀ n ∈ nodes, IsJson false n.outline) :
    IsJson false (.list (outlines nodes)) := by
  rw [outlines_eq]
  exact .list (List.forall_mem_map.mpr h)

theorem isJson_outline (n : Node) : IsJson false n.outline := by
  induction n using Node.induction with
  | text content =>
    apply IsJson.record (by simp)
    simp only [List.forall_mem_cons]
    exact ⟨.str _, .str _, nofun⟩
  | math content display =>
    apply IsJson.record (by simp)
    simp only [List.forall_mem_cons]
    exact ⟨.str _, .str _, .bool _, nofun⟩
  | group children ih =>
    apply IsJson.record (by simp)
    simp only [List.forall_mem_cons]
    exact ⟨.str _, isJson_outlines ih, nofun⟩
  | command name required optional ihr iho =>
    apply IsJson.record (by simp)
    simp only [List.forall_mem_cons]
    exact ⟨.str _, .str _, isJson_outlines ihr, isJson_outlines iho, nofun⟩
  | foreign typeName kind =>
    apply IsJson.record (by simp)
    simp only [List.forall_mem_cons]
    exact ⟨.str _, .str _, nofun⟩

theorem fits_outlines {nodes : List Node} (h : ∀ n ∈ nodes, n.outline.fits) :
    fitAll (outlines nodes) := by
  rw [fitAll_eq, outlines_eq, List.all_map, List.all_eq_true]
  exact h

theorem fits_outline (n : Node) : n.outline.fits := by
  induction n using Node.induction with
  | text content => rfl
  | math content display => rfl
  | group children ih => simp [outline, fits_record, fits_outlines ih, fits]
  | command name required optional ihr iho =>
    simp [outline, fits_record, fits_outlines ihr, fits_outlines iho, fits]
  | foreign typeName kind => rfl

def formName : Node → String
  | text _ => "text"
  | math _ _ => "math"
  | group _ => "group"
  | command _ _ _ => "command"
  | foreign _ _ => "foreign"

theorem exists_outline_eq (n : Node) :
    ∃ fields, n.outline = .record (("type", .str n.formName) :: fields) := by
  cases n <;> exact ⟨_, rfl⟩

def Native (n : Node) : Prop := ∀ typeName kind, foreign typeName kind ∉ n.flatten

theorem Native.children {children : List Node} (h : (group children).Native) :
    ∀ n ∈ children, n.Native := by
  intro n hn typeName kind hmem
  exact h typeName kind (List.mem_cons_of_mem _ (Html.mem_flattenAll.mpr ⟨n, hn, hmem⟩))

theorem Native.arguments {name : String} {required optional : List Node}
    (h : (command name required optional).Native) :
    (∀ n ∈ required, n.Native) ∧ ∀ n ∈ optional, n.Native := by
  constructor
  · intro n hn typeName kind hmem
    exact h typeName kind (List.mem_cons_of_mem _
      (List.mem_append_right _ (Html.mem_flattenAll.mpr ⟨n, hn, hmem⟩)))
  · intro n hn typeName kind hmem
    exact h typeName kind (List.mem_cons_of_mem _
      (List.mem_append_left _ (Html.mem_flattenAll.mpr ⟨n, hn, hmem⟩)))

theorem formName_eq {a b : Node} (h : a.outline.canonical = b.outline.canonical) :
    a.formName = b.formName := by
  have hjson := a.isJson_outline
  obtain ⟨fields, ha⟩ := a.exists_outline_eq
  obtain ⟨fields', hb⟩ := b.exists_outline_eq
  rw [ha] at hjson
  rw [ha, hb] at h
  exact Value.str.inj (canonical_field hjson h List.mem_cons_self List.mem_cons_self)

theorem eq_of_outlines {nodes others : List Node}
    (h : ∀ a ∈ nodes, ∀ b : Node, a.outline.canonical = b.outline.canonical → a = b)
    (heq : (Value.list (outlines nodes)).canonical = (Value.list (outlines others)).canonical) :
    nodes = others := by
  rw [canonical_list, canonical_list, outlines_eq, outlines_eq, List.map_map, List.map_map] at heq
  replace heq := Value.list.inj heq
  induction nodes generalizing others with
  | nil => exact (List.map_eq_nil_iff.mp heq.symm).symm
  | cons a nodes ih =>
    obtain ⟨hhead, htail⟩ := List.forall_mem_cons.mp h
    cases others with
    | nil => cases heq
    | cons b others =>
      obtain ⟨hab, hrest⟩ := List.cons.inj heq
      rw [hhead b hab, ih htail hrest]

theorem eq_of_canonical_outline {a b : Node} (ha : a.Native)
    (h : a.outline.canonical = b.outline.canonical) : a = b := by
  -- The word for the form of one tree tells which form the other has.
  induction a using Node.induction generalizing b with
  | text content =>
    have hform := formName_eq h
    have hjson := isJson_outline (.text content)
    cases b with
    | text content' =>
      have hcontent : (Value.str content).canonical = (Value.str content').canonical :=
        @canonical_field _ _ hjson h "content" _ _ (by simp) (by simp)
      rw [Value.str.inj hcontent]
    | _ => simp [formName] at hform
  | math content display =>
    have hform := formName_eq h
    have hjson := isJson_outline (.math content display)
    cases b with
    | math content' display' =>
      have hcontent : (Value.str content).canonical = (Value.str content').canonical :=
        @canonical_field _ _ hjson h "content" _ _ (by simp) (by simp)
      have hdisplay : (Value.bool display).canonical = (Value.bool display').canonical :=
        @canonical_field _ _ hjson h "display_mode" _ _ (by simp) (by simp)
      rw [Value.str.inj hcontent, Value.bool.inj hdisplay]
    | _ => simp [formName] at hform
  | group children ih =>
    have hform := formName_eq h
    have hjson := isJson_outline (.group children)
    cases b with
    | group children' =>
      have hchildren := @canonical_field _ _ hjson h "children" (.list (outlines children))
        (.list (outlines children')) (by simp) (by simp)
      rw [eq_of_outlines (fun a hmem b => ih a hmem (ha.children a hmem)) hchildren]
    | _ => simp [formName] at hform
  | command name required optional ihr iho =>
    have hform := formName_eq h
    have hjson := isJson_outline (.command name required optional)
    obtain ⟨hnativer, hnativeo⟩ := ha.arguments
    cases b with
    | command name' required' optional' =>
      have hname : (Value.str name).canonical = (Value.str name').canonical :=
        @canonical_field _ _ hjson h "name" _ _ (by simp) (by simp)
      have hrequired := @canonical_field _ _ hjson h "required_args" (.list (outlines required))
        (.list (outlines required')) (by simp) (by simp)
      have hoptional := @canonical_field _ _ hjson h "optional_args" (.list (outlines optional))
        (.list (outlines optional')) (by simp) (by simp)
      rw [Value.str.inj hname,
        eq_of_outlines (fun a hmem b => ihr a hmem (hnativer a hmem)) hrequired,
        eq_of_outlines (fun a hmem b => iho a hmem (hnativeo a hmem)) hoptional]
    | _ => simp [formName] at hform
  | foreign typeName kind => exact absurd List.mem_cons_self (ha typeName kind)

theorem exists_dump_outline (n : Node) :
    ∃ text, Json.dump 2 n.outline none (Json.indentOptions 2) = .ok text ∧
      Json.read text = some n.outline.canonical :=
  Json.read_dump n.isJson_outline n.fits_outline (by decide)

theorem eq_of_dump_outline {a b : Node} (ha : a.Native)
    (h : Json.dump 2 a.outline none (Json.indentOptions 2) =
      Json.dump 2 b.outline none (Json.indentOptions 2)) : a = b := by
  obtain ⟨text, hdump, hread⟩ := a.exists_dump_outline
  obtain ⟨text', hdump', hread'⟩ := b.exists_dump_outline
  rw [hdump, hdump'] at h
  rw [Except.ok.inj h, hread'] at hread
  exact eq_of_canonical_outline ha (Option.some.inj hread).symm

end Node

section Documents

variable {source : String} {document : Node}

theorem native_of_parse {limit : Int} (h : parse (tokenize source) limit = .ok document) :
    document.Native :=
  fun typeName kind hmem => scanned_of_parse h (.foreign typeName kind) hmem

namespace Program

open Run

section Compiling

variable (c : Compiler) {r : CommandLine.Request} (hast : r.ast) (s : Session)

include hast

theorem compiled_of_parse (hparse : parse (tokenize source) nestingLimit = .ok document)
    {text : String} (hdump : Json.dump 2 document.outline none (Json.indentOptions 2) = .ok text) :
    (compiled c r source).on s =
      (.ok (.ok text, { c with stats := (readSource source).2 }), s) := by
  have houtline : c.outline (.str source) =
      (.ok document.outline, { c with stats := (readSource source).2 }) := by
    rw [Compiler.outline_eq, Compiler.parse_eq, Compiler.parseResult_str, hparse]
    rfl
  have hpretty : (pretty document.outline).on s = (.ok text, s) := by
    change (lift ((Json.dump 2 document.outline none (Json.indentOptions 2)).mapError _)).on s = _
    rw [hdump]
    rfl
  rw [compiled, if_pos hast, houtline]
  exact on_bind_ok hpretty

theorem compiled_of_parse_error {e : ParseError}
    (hparse : parse (tokenize source) nestingLimit = .error e) :
    ((compiled c r source).on s).1.map Prod.fst = .ok (.error e) := by
  have houtline : c.outline (.str source) =
      (.error (.parse e), { c with stats := (readSource source).2 }) := by
    rw [Compiler.outline_eq, Compiler.parse_eq, Compiler.parseResult_str, hparse]
    rfl
  rw [compiled, if_pos hast, houtline]
  rfl

theorem exists_parse_of_compiled {text : String}
    (h : ((compiled c r source).on s).1.map Prod.fst = .ok (.ok text)) :
    ∃ document, parse (tokenize source) nestingLimit = .ok document ∧
      Json.dump 2 document.outline none (Json.indentOptions 2) = .ok text := by
  cases hparse : parse (tokenize source) nestingLimit with
  | error e =>
    rw [compiled_of_parse_error c hast s hparse] at h
    cases h
  | ok document =>
    obtain ⟨text', hdump, -⟩ := document.exists_dump_outline
    rw [compiled_of_parse c hast s hparse hdump] at h
    cases h
    exact ⟨document, rfl, hdump⟩

end Compiling

end Program

end Documents

namespace Program

/-- If the tree of a source is asked for, there is a text, and as JSON it reads as the tables of the
tree. A tree without foreign leaves can be told from any other by its tables, whatever the order of
their entries, and sources that give the same text have the same tree. -/
theorem tree_of_ast_text :
    (∀ (c : Compiler) (r : CommandLine.Request) (source : String) (document : Node), r.ast →
      parse (tokenize source) nestingLimit = .ok document →
        ∃ text v, Json.dump 2 document.outline none (Json.indentOptions 2) = .ok text ∧
          (∀ s, (compiled c r source).on s =
            (.ok (.ok text, { c with stats := (readSource source).2 }), s)) ∧
          Json.read text = some v ∧ Rearranged document.outline v) ∧
    (∀ a b : Node, a.Native → Rearranged a.outline b.outline → a = b) ∧
    ∀ (c c' : Compiler) (r r' : CommandLine.Request) (source source' : String) (s s' : Session)
      (text : String), r.ast → r'.ast →
      ((compiled c r source).on s).1.map Prod.fst = .ok (.ok text) →
      ((compiled c' r' source').on s').1.map Prod.fst = .ok (.ok text) →
        ∃ document, parse (tokenize source) nestingLimit = .ok document ∧
          parse (tokenize source') nestingLimit = .ok document := by
  refine ⟨fun c r source document hast hparse => ?_, fun a b ha h => ?_,
    fun c c' r r' source source' s s' text hast hast' h h' => ?_⟩
  · obtain ⟨text, hdump, hread⟩ := document.exists_dump_outline
    exact ⟨text, _, hdump, fun s => compiled_of_parse c hast s hparse hdump, hread,
      rearranged_canonical document.isJson_outline⟩
  · exact Node.eq_of_canonical_outline ha (h.canonical_eq a.isJson_outline)
  · obtain ⟨document, hparse, hdump⟩ := exists_parse_of_compiled c hast s h
    obtain ⟨document', hparse', hdump'⟩ := exists_parse_of_compiled c' hast' s' h'
    have heq := Node.eq_of_dump_outline (native_of_parse hparse) (hdump.trans hdump'.symm)
    exact ⟨document, hparse, heq ▸ hparse'⟩

def treeRequest : CommandLine.Request where
  input := none
  output := none
  config := ""
  configDirs := none
  ast := true
  validate := false
  noMathScript := false
  printConfig := false

def markedSource : String := "\\em[\"]\x7b$x$\\\\ a\tb\x7d"

theorem tree_of_ast_text_marked :
    let s : Session := ⟨firstJournal ⟨[], []⟩ "", ""⟩
    ∃ document text v, parse (tokenize markedSource) nestingLimit = .ok document ∧
      ((compiled ⟨.default, .zero⟩ treeRequest markedSource).on s).1.map Prod.fst =
        .ok (.ok text) ∧
      Json.read text = some v ∧ Rearranged document.outline v ∧
      ¬ Rearranged (Node.math "x" false).outline (Node.math "x" true).outline := by
  intro s
  obtain ⟨htext, htables, hsources⟩ := tree_of_ast_text
  have hread : (parse (tokenize markedSource) nestingLimit).map (fun _ => ()) = .ok () := by
    decide +kernel
  have hnative : (Node.math "x" false).Native := fun _ _ hmem => by simp [Node.flatten] at hmem
  obtain ⟨document, hparse, -⟩ := exists_ok_of_map_eq_ok hread
  obtain ⟨text, v, -, hrun, hv, htable⟩ :=
    htext ⟨.default, .zero⟩ treeRequest markedSource document rfl hparse
  have hcompiled : ((compiled ⟨.default, .zero⟩ treeRequest markedSource).on s).1.map Prod.fst =
      .ok (.ok text) := by
    rw [hrun s]
    rfl
  obtain ⟨other, hother, -⟩ := hsources _ _ _ _ _ _ _ _ _ rfl rfl hcompiled hcompiled
  rw [← Except.ok.inj (hother.symm.trans hparse)] at htable
  refine ⟨other, text, v, hother, hcompiled, hv, htable, fun h => ?_⟩
  cases htables _ _ hnative h

end Program

end TexHtml
