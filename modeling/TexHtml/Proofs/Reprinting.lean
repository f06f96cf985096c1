import TexHtml.Proofs.DerivedNodes

namespace TexHtml

namespace Printing

open Shape Grammar

def Within (k : Nat) (inside : Option Delimiter) (ts : List Token) (nodes : List Node) : Prop :=
  ∃ j ≤ k, Elements inside ts nodes j

def Derives (k : Nat) (n : Node) : Prop :=
  ∀ inside us vs nodes, us.map Token.shape = shapes n → (∀ d, ¬ OpensWith d vs) →
    Within k inside vs nodes → Within k inside (us ++ vs) (n :: nodes)

def DerivesArgument (k : Nat) (n : Node) : Prop :=
  ∀ us, us.map Token.shape = argument n →
    ∃ children, Within k (some .brace) us children ∧ Argument children n

theorem shape_eq_iff {t : Token} {kind : TokenKind} {content : String} :
    t.shape = (kind, content) ↔ t.kind = kind ∧ t.content = content := by
  rw [Token.shape, Prod.mk.injEq]

theorem exists_enclosed {d : Delimiter} {us : List Token} {ws ws' : List Shape}
    (h : us.map Token.shape = opening d :: (ws ++ closing d :: ws')) :
    ∃ o xs c ys, us = (o :: (xs ++ [c])) ++ ys ∧ o.kind = .opener d ∧ c.kind = .closer d ∧
      xs.map Token.shape = ws ∧ ys.map Token.shape = ws' := by
  obtain ⟨o, us, rfl, ho, h⟩ := List.map_eq_cons_iff.mp h
  obtain ⟨xs, us, rfl, hx, h⟩ := List.map_eq_append_iff.mp h
  obtain ⟨c, ys, rfl, hc, hy⟩ := List.map_eq_cons_iff.mp h
  exact ⟨o, xs, c, ys, by simp, (shape_eq_iff.mp ho).1, (shape_eq_iff.mp hc).1, hx, hy⟩

theorem separator_closes (inside : Option Delimiter) :
    ∃ d, (separator inside).1 = .closer d ∧ inside ≠ some d := by
  match inside with
  | none => exact ⟨.bracket, rfl, by simp⟩
  | some .brace => exact ⟨.bracket, rfl, by simp⟩
  | some .bracket => exact ⟨.brace, rfl, by simp⟩

theorem siblings_within {k : Nat} {inside : Option Delimiter} {nodes : List Node} {us : List Token}
    (h : ∀ n ∈ nodes, Derives k n) (hu : us.map Token.shape = siblings inside nodes) :
    Within k inside us nodes := by
  have hnone (d : Delimiter) : ¬ OpensWith d [] := by simp [OpensWith]
  have hnil : Within k inside [] [] := ⟨0, Nat.zero_le k, .nil⟩
  induction nodes generalizing us with
  | nil =>
    cases List.map_eq_nil_iff.mp hu
    exact hnil
  | cons n rest ih =>
    rw [List.forall_mem_cons] at h
    cases rest with
    | nil =>
      have hn := h.1 inside us [] [] hu hnone hnil
      rwa [List.append_nil] at hn
    | cons m rest =>
      obtain ⟨xs, us, rfl, hx, hu⟩ := List.map_eq_append_iff.mp hu
      obtain ⟨c, ys, rfl, hc, hy⟩ := List.map_eq_cons_iff.mp hu
      obtain ⟨d, hkind, hd⟩ := separator_closes inside
      have hck : c.kind = .closer d := by rw [← hkind, ← hc]; rfl
      obtain ⟨j, hj, hrest⟩ := ih h.2 hy
      exact h.1 inside xs (c :: ys) _ hx (fun d => not_opensWith_cons (by simp [hck]))
        ⟨j, hj, .stray hck hd hrest⟩

theorem arguments_within {j k : Nat} {nodes : List Node} {us : List Token} (hj : j < k ∨ nodes = [])
    (h : ∀ n ∈ nodes, DerivesArgument j n) (hu : us.map Token.shape = arguments nodes) :
    ∃ lists i, i ≤ k ∧ Groups .brace us lists i ∧ List.Forall₂ Argument lists nodes := by
  induction nodes generalizing us with
  | nil =>
    cases List.map_eq_nil_iff.mp hu
    exact ⟨[], 0, Nat.zero_le k, .nil, .nil⟩
  | cons n rest ih =>
    rw [List.forall_mem_cons] at h
    rw [arguments_cons] at hu
    obtain ⟨o, xs, c, ys, rfl, ho, hc, hx, hy⟩ := exists_enclosed hu
    have hjk : j < k := hj.resolve_right (by simp)
    obtain ⟨children, ⟨i, hi, hbody⟩, ha⟩ := h.1 xs hx
    obtain ⟨lists, m, hm, hrest, hargs⟩ := ih (.inl hjk) h.2 hy
    exact ⟨children :: lists, max (i + 1) m, by omega, .cons (.enclosed ho hbody hc) hrest,
      .cons ha hargs⟩

theorem optional_within {j k : Nat} {nodes : List Node} {us : List Token} (hj : j < k ∨ nodes = [])
    (h : ∀ n ∈ nodes, Derives j n)
    (hu : us.map Token.shape = if nodes.isEmpty then []
      else opening .bracket :: (siblings (some .bracket) nodes ++ [closing .bracket])) :
    ∃ lists i, i ≤ k ∧ Groups .bracket us lists i ∧ lists.flatten = nodes := by
  cases nodes with
  | nil =>
    cases List.map_eq_nil_iff.mp hu
    exact ⟨[], 0, Nat.zero_le k, .nil, rfl⟩
  | cons n rest =>
    obtain ⟨o, xs, c, ys, rfl, ho, hc, hx, hy⟩ := exists_enclosed hu
    cases List.map_eq_nil_iff.mp hy
    have hjk : j < k := hj.resolve_right (by simp)
    obtain ⟨i, hi, hbody⟩ := siblings_within h hx
    exact ⟨[n :: rest], max (i + 1) 0, by omega, .cons (.enclosed ho hbody hc) .nil, by simp⟩

theorem derives_text (k : Nat) (content : String) : Derives k (.text content) := by
  rintro inside us vs nodes hu - ⟨j, hj, hrest⟩
  rw [shapes] at hu
  obtain ⟨t, rfl, ht⟩ := List.map_eq_singleton_iff.mp hu
  rw [textShape] at ht
  split at ht
  · rename_i hs
    cases hs
    exact ⟨j, hj, .newline (shape_eq_iff.mp ht).1 hrest⟩
  · obtain ⟨hk, rfl⟩ := shape_eq_iff.mp ht
    exact ⟨j, hj, .text hk hrest⟩

theorem derives_math (k : Nat) (content : String) (display : Bool) :
    Derives k (.math content display) := by
  rintro inside us vs nodes hu - ⟨j, hj, hrest⟩
  rw [shapes] at hu
  obtain ⟨t, rfl, ht⟩ := List.map_eq_singleton_iff.mp hu
  obtain ⟨hk, rfl⟩ := shape_eq_iff.mp ht
  exact ⟨j, hj, .math hk hrest⟩

theorem derives_group {j k : Nat} {children : List Node} (hj : j < k)
    (h : ∀ n ∈ children, Derives j n) : Derives k (.group children) := by
  rintro inside us vs nodes hu - ⟨m, hm, hrest⟩
  rw [shapes] at hu
  obtain ⟨o, xs, c, ys, rfl, ho, hc, hx, hy⟩ := exists_enclosed hu
  cases List.map_eq_nil_iff.mp hy
  obtain ⟨i, hi, hbody⟩ := siblings_within h hx
  rw [List.append_nil]
  exact ⟨max (i + 1) m, by omega, .group (.enclosed ho hbody hc) hrest⟩

theorem derives_command {i j k : Nat} {name : String} {required optional : List Node}
    (hi : i < k ∨ optional = []) (hs : ∀ n ∈ optional, Derives i n)
    (hj : j < k ∨ required = []) (hr : ∀ n ∈ required, DerivesArgument j n) :
    Derives k (.command name required optional) := by
  rintro inside us vs nodes hu hv ⟨m, hm, hrest⟩
  rw [shapes] at hu
  obtain ⟨t, us, rfl, ht, hu⟩ := List.map_eq_cons_iff.mp hu
  obtain ⟨os, rs, rfl, hos, hrs⟩ := List.map_eq_append_iff.mp hu
  obtain ⟨optionals, a, ha, hgroups, rfl⟩ := optional_within hi hs hos
  obtain ⟨lists, b, hb, hbraces, hargs⟩ := arguments_within hj hr hrs
  -- Behind the brackets stands an opening brace or what follows the command.
  have hbracket : ¬ OpensWith .bracket (rs ++ vs) := by
    cases required with
    | nil =>
      cases List.map_eq_nil_iff.mp hrs
      exact hv .bracket
    | cons n rest =>
      rw [arguments_cons] at hrs
      obtain ⟨o, xs, c, ys, rfl, ho, -⟩ := exists_enclosed hrs
      exact not_opensWith_cons (by simp [ho])
  obtain ⟨hk, rfl⟩ := shape_eq_iff.mp ht
  rw [List.cons_append, List.append_assoc]
  exact ⟨max a (max b m), by omega, .command hk hgroups hbracket hbraces (hv .brace) hargs hrest⟩

mutual

theorem Printable.derives {k : Nat} {n : Node} (h : Printable k n) : Derives k n := by
  match h with
  | .text hp => exact derives_text k _
  | .math hp ho => exact derives_math k _ _
  | .group hj hc => exact derives_group hj fun n hn => (hc n hn).derives
  | .command hp ho hi hs hj hr =>
    exact derives_command hi (fun n hn => (hs n hn).derives) hj fun n hn => (hr n hn).derives

theorem PrintableArgument.derives {k : Nat} {n : Node} (h : PrintableArgument k n) :
    DerivesArgument k n := by
  intro us hu
  match h with
  | .empty =>
    cases List.map_eq_nil_iff.mp hu
    exact ⟨[], ⟨0, Nat.zero_le k, .nil⟩, .empty⟩
  | .single hn hg =>
    rw [argument_single hn hg] at hu
    have hsingle : us.map Token.shape = siblings (some .brace) [n] := by rw [hu, siblings]
    refine ⟨[n], siblings_within (fun m hm => ?_) hsingle, .single n⟩
    rw [List.mem_singleton.mp hm]
    exact hn.derives
  | .several hc =>
    exact ⟨_, siblings_within (fun n hn => (hc n hn).derives) hu, .several _ _ _⟩

end

theorem PrintableNodes.derives {k : Nat} {atEnd : Prop} {nodes : List Node}
    (h : PrintableNodes k atEnd nodes) : ∀ n ∈ nodes, Derives k n := by
  induction h with
  | nil => simp
  | @last n ha hn =>
    rw [List.forall_mem_singleton]
    rcases hn with rfl | rfl
    · exact @derives_command k k k _ _ _ (.inr rfl) (by simp) (.inr rfl) (by simp)
    · exact derives_math k "" false
  | cons hn rest ih => exact List.forall_mem_cons.mpr ⟨hn.derives, ih⟩

theorem beforeEnd_append_end {ts : List Token} {e : Token} (he : e.kind = .endOfInput)
    (ht : ∀ t ∈ ts, t.kind ≠ .endOfInput) : beforeEnd (ts ++ [e]) = ts :=
  beforeEnd_append_ends (show Reading.Ends none [e] from Or.inl he) ht

theorem printableNodes_of_parse {text : String} {limit : Int} {document : Node}
    (h : parse (tokenize text) limit = .ok document) :
    ∃ nodes k, document = .group nodes ∧ PrintableNodes k True nodes ∧ Fits limit 0 k := by
  obtain ⟨nodes, k, rfl, helements, hfits⟩ := elements_of_parse h
  have hformed : WellFormed ((tokenize text).map Token.shape) := (scans_iff.mpr rfl).wellFormed
  obtain ⟨ts, e, htokens, he, hproper, hlast⟩ := exists_init hformed
  have hends : ∀ t ∈ ts, t.kind ≠ .endOfInput := by
    intro t ht hk
    have hp := hproper t ht
    rw [Token.shape, hk] at hp
    exact hp
  rw [htokens, beforeEnd_append_end he hends] at helements
  rw [← List.append_nil ts] at hlast
  have hnodes := printable_of_elements helements hproper hlast
  rw [eq_self] at hnodes
  exact ⟨nodes, k, rfl, hnodes, hfits⟩

/-- What is read from a text is read again from the source printed for it. -/
theorem parse_source (text : String) (limit : Int) (document : Node)
    (h : parse (tokenize text) limit = .ok document) :
    parse (tokenize (source document)) limit = .ok document := by
  obtain ⟨nodes, k, rfl, hnodes, hfits⟩ := printableNodes_of_parse h
  have hshapes : (tokenize (source (.group nodes))).map Token.shape =
      siblings none nodes ++ [(.endOfInput, "")] := by
    apply scans_iff.mp
    rw [source, String.toList_ofList]
    exact hnodes.scans
  obtain ⟨us, es, htokens, hu, hes⟩ := List.map_eq_append_iff.mp hshapes
  obtain ⟨e, rfl, he⟩ := List.map_eq_singleton_iff.mp hes
  obtain ⟨j, hj, helements⟩ := siblings_within hnodes.derives hu
  rw [htokens]
  refine parse_of_elements (k := j) ?_ (fun m hm => hfits m (by omega))
  rwa [beforeEnd_append_end (shape_eq_iff.mp he).1 helements.no_end]

theorem parse_source_mixed :
    ∃ document,
      parse (tokenize "a\\b[x\n\x7by\x7d][z]\x7b\x7d\x7b\x7bp$q$\x7d\x7d\\\\]$$m$$\\% [\\c]$")
        nestingLimit = .ok document ∧
      source document = "a]\\b[x\x7d\n\x7d\x7by\x7d\x7dz]\x7b\x7d\x7bp]$q$\x7d]\\\\]$$m$$]\\%[\\c]]$" ∧
      parse (tokenize (source document)) nestingLimit = .ok document := by
  have hprinted : (parse
      (tokenize "a\\b[x\n\x7by\x7d][z]\x7b\x7d\x7b\x7bp$q$\x7d\x7d\\\\]$$m$$\\% [\\c]$")
      nestingLimit).map source =
      .ok "a]\\b[x\x7d\n\x7d\x7by\x7d\x7dz]\x7b\x7d\x7bp]$q$\x7d]\\\\]$$m$$]\\%[\\c]]$" := by
    decide +kernel
  obtain ⟨document, hparse, hsource⟩ := exists_ok_of_map_eq_ok hprinted
  exact ⟨document, hparse, hsource, parse_source _ _ document hparse⟩

end Printing

end TexHtml
