import Mathlib.Data.List.Infix
import TexHtml.Proofs.Keys
import TexHtml.Proofs.Placeholders

namespace TexHtml.Placeholder

variable (env : Environment)

theorem written_append (name rest : List Char) :
    written name ++ rest = '$' :: ('{' :: (name ++ '}' :: rest)) := by
  simp [written]

theorem dollar_not_mem_inside {name : List Char} (h : IsVariableName name) :
    '$' ∉ '{' :: name ++ ['}'] := by
  obtain ⟨first, rest, rfl, hfirst, hrest⟩ := h
  have hpart : ∀ c ∈ first :: rest, isNamePart c := by
    rw [List.forall_mem_cons]
    exact ⟨by simp [isNamePart, hfirst], hrest⟩
  intro hmem
  rw [List.cons_append, List.mem_cons, List.mem_append, List.mem_singleton] at hmem
  rcases hmem with hbrace | hname | hbrace
  · cases hbrace
  · exact absurd (hpart '$' hname) (by decide)
  · cases hbrace

theorem placeholder?_append_written {c : Char} {rest name : List Char} (post : List Char)
    (h : placeholder? (c :: rest) = none) :
    placeholder? (c :: rest ++ (written name ++ post)) = none := by
  rw [Option.eq_none_iff_forall_ne_some]
  rintro ⟨other, behind⟩ hother
  obtain ⟨hname, hsplit⟩ := placeholder?_eq_some_iff.mp hother
  rcases List.append_eq_append_iff.mp hsplit with ⟨inner, hinner, hpost⟩ | ⟨inner, hfront, -⟩
  · cases inner with
    | nil =>
      rw [List.append_nil] at hinner
      rw [placeholder?_eq_some_iff.mpr ⟨hname, by rw [← hinner, List.append_nil]⟩] at h
      cases h
    | cons d inner =>
      rw [written_append, List.cons_append, List.cons.injEq] at hpost
      obtain ⟨rfl, -⟩ := hpost
      -- the dollar sign would stand behind the first character of a placeholder
      have htail : '{' :: other ++ ['}'] = rest ++ '$' :: inner := (List.cons.inj hinner).2
      apply dollar_not_mem_inside hname
      rw [htail]
      exact List.mem_append_right rest List.mem_cons_self
  · rw [placeholder?_eq_some_iff.mpr ⟨hname, hfront⟩] at h
    cases h

theorem expand_append_written {name : List Char} (hname : IsVariableName name)
    (pre post : List Char) :
    expand env (pre ++ (written name ++ post)) =
      expand env pre ++ (meaning env name ++ expand env post) := by
  induction pre using expand.induct with
  | case1 =>
    have hfirst : placeholder? (written name ++ post) = some (name, post) :=
      placeholder?_eq_some_iff.mpr ⟨hname, rfl⟩
    rw [written_append] at hfirst
    rw [List.nil_append, written_append, expand_of_placeholder env hfirst, expand, List.nil_append]
  | case2 c rest other behind h ih =>
    obtain ⟨hother, hsplit⟩ := placeholder?_eq_some_iff.mp h
    have hstill : placeholder? (c :: (rest ++ (written name ++ post))) =
        some (other, behind ++ (written name ++ post)) := by
      rw [placeholder?_eq_some_iff, ← List.cons_append, hsplit, List.append_assoc]
      exact ⟨hother, rfl⟩
    rw [List.cons_append, expand_of_placeholder env hstill, ih, expand_of_placeholder env h,
      List.append_assoc]
  | case3 c rest h ih =>
    have hstill : placeholder? (c :: (rest ++ (written name ++ post))) = none :=
      placeholder?_append_written post h
    rw [List.cons_append, expand_of_none env hstill, ih, expand_of_none env h, List.cons_append]

def Bare (s : List Char) : Prop := ∀ name, IsVariableName name → ¬ written name <:+: s

theorem bare_nil : Bare [] := by
  intro name _ h
  rw [List.infix_nil] at h
  cases h

theorem bare_cons {c : Char} {s rest : List Char} (hs : Bare s) (hstart : s <+: rest)
    (h : placeholder? (c :: rest) = none) : Bare (c :: s) := by
  intro name hname hinside
  rcases List.infix_cons_iff.mp hinside with hfirst | hlater
  · obtain ⟨behind, hbehind⟩ := hfirst.trans (List.cons_prefix_cons.mpr ⟨rfl, hstart⟩)
    rw [placeholder?_eq_some_iff.mpr ⟨hname, hbehind.symm⟩] at h
    cases h
  · exact hs name hname hlater

theorem expand_of_bare {s : List Char} (h : Bare s) : expand env s = s := by
  induction s using expand.induct with
  | case1 => rw [expand]
  | case2 c rest name behind hfound ih =>
    obtain ⟨hname, hsplit⟩ := placeholder?_eq_some_iff.mp hfound
    exact absurd (hsplit ▸ (List.prefix_append _ _).isInfix) (h name hname)
  | case3 c rest hnone ih =>
    have hrest : Bare rest := fun name hname hinside =>
      h name hname (hinside.trans (List.suffix_cons c rest).isInfix)
    rw [expand_of_none env hnone, ih hrest]

structure Template where
  parts : List (List Char × List Char)
  last : List Char
  isName : ∀ p ∈ parts, IsVariableName p.2
  bare : ∀ p ∈ parts, Bare p.1
  bare_last : Bare last

namespace Template

def fill (t : Template) (value : List Char → List Char) : List Char :=
  t.parts.flatMap (fun p => p.1 ++ value p.2) ++ t.last

def push (t : Template) {name : List Char} (hname : IsVariableName name) : Template where
  parts := ([], name) :: t.parts
  last := t.last
  isName := List.forall_mem_cons.mpr ⟨hname, t.isName⟩
  bare := List.forall_mem_cons.mpr ⟨bare_nil, t.bare⟩
  bare_last := t.bare_last

theorem fill_push (t : Template) {name : List Char} (hname : IsVariableName name)
    (value : List Char → List Char) : (t.push hname).fill value = value name ++ t.fill value := by
  simp [fill, push]

theorem exists_cons (t : Template) {c : Char}
    (h : placeholder? (c :: t.fill written) = none) :
    ∃ t' : Template, ∀ value, t'.fill value = c :: t.fill value := by
  obtain ⟨parts, last, hname, hbare, hlast⟩ := t
  cases parts with
  | nil =>
    refine ⟨⟨[], c :: last, hname, hbare, ?_⟩, fun value => rfl⟩
    exact bare_cons hlast (List.prefix_refl last) h
  | cons p parts =>
    obtain ⟨front, name⟩ := p
    obtain ⟨hfirst, hrest⟩ := List.forall_mem_cons.mp hbare
    have hstart : front <+: fill ⟨(front, name) :: parts, last, hname, hbare, hlast⟩ written := by
      rw [fill, List.flatMap_cons, List.append_assoc, List.append_assoc]
      exact List.prefix_append _ _
    refine ⟨⟨(c :: front, name) :: parts, last, ?_, ?_, hlast⟩, fun value => rfl⟩
    · exact List.forall_mem_cons.mpr (List.forall_mem_cons.mp hname)
    · exact List.forall_mem_cons.mpr ⟨bare_cons hfirst hstart h, hrest⟩

theorem exists_fill (s : List Char) : ∃ t : Template, t.fill written = s := by
  induction s using expand.induct with
  | case1 => exact ⟨⟨[], [], by simp, by simp, bare_nil⟩, rfl⟩
  | case2 c rest name behind h ih =>
    obtain ⟨hname, hsplit⟩ := placeholder?_eq_some_iff.mp h
    obtain ⟨t, ht⟩ := ih
    exact ⟨t.push hname, by rw [fill_push, ht, hsplit]⟩
  | case3 c rest h ih =>
    obtain ⟨t, rfl⟩ := ih
    obtain ⟨t', ht'⟩ := t.exists_cons h
    exact ⟨t', ht' written⟩

theorem expand_fill (t : Template) : expand env (t.fill written) = t.fill (meaning env) := by
  obtain ⟨parts, last, hname, hbare, hlast⟩ := t
  induction parts with
  | nil => exact expand_of_bare env hlast
  | cons p parts ih =>
    obtain ⟨hp, hnames⟩ := List.forall_mem_cons.mp hname
    obtain ⟨hfront, hbares⟩ := List.forall_mem_cons.mp hbare
    have hrest := ih hnames hbares
    simp only [fill, List.flatMap_cons, List.append_assoc] at hrest ⊢
    rw [expand_append_written env hp, expand_of_bare env hfront, hrest]

end Template

def replaced (s : String) : String := String.ofList (expand env s.toList)

def placeholder (name : String) : String := "$\x7b" ++ name ++ "\x7d"

theorem toList_placeholder (name : String) : (placeholder name).toList = written name.toList := by
  simp [placeholder, written]

theorem meaning_toList (name : String) :
    meaning env name.toList = ((env.get? name).getD (placeholder name)).toList := by
  rw [meaning, String.ofList_toList]
  cases env.get? name with
  | some value => rfl
  | none => exact (toList_placeholder name).symm

theorem replaced_append_placeholder {name : String} (hname : IsVariableName name.toList)
    (pre post : String) :
    replaced env (pre ++ placeholder name ++ post) =
      replaced env pre ++ (env.get? name).getD (placeholder name) ++ replaced env post := by
  rw [← String.toList_inj]
  simp only [replaced, String.toList_append, String.toList_ofList, toList_placeholder,
    List.append_assoc]
  rw [expand_append_written env hname, meaning_toList]

def children : Value → List Value
  | .list items => items
  | .table entries => entries.map Prod.snd
  | _ => []

def at? (v : Value) : List Nat → Option Value
  | [] => some v
  | i :: address =>
    match (children v)[i]? with
    | some u => at? u address
    | none => none

inductive Rewritten : Value → Value → Prop
  | text (s : String) : Rewritten (.str s) (.str (replaced env s))
  | list {items items' : List Value} (h : items'.length = items.length) :
      Rewritten (.list items) (.list items')
  | table {entries entries' : Entries} (h : entries'.keys = entries.keys) :
      Rewritten (.table entries) (.table entries')
  | leaf {v : Value} (h : isPlain v) : Rewritten v v

theorem substituteItems_eq (items : List Value) :
    substituteItems env items = items.map (substitute env) := by
  induction items with
  | nil => rw [substituteItems, List.map_nil]
  | cons v items ih => rw [substituteItems, ih, List.map_cons]

theorem substituteEntries_eq (entries : Entries) :
    substituteEntries env entries = entries.map fun e => (e.1, substitute env e.2) := by
  induction entries with
  | nil => rw [substituteEntries, List.map_nil]
  | cons e entries ih =>
    obtain ⟨k, v⟩ := e
    rw [substituteEntries, ih, List.map_cons]

theorem substitute_of_isPlain {v : Value} (h : isPlain v) : substitute env v = v := by
  cases v with
  | str s => cases h
  | list items => cases h
  | table entries => cases h
  | _ => simp [substitute]

theorem rewritten_substitute (v : Value) : Rewritten env v (substitute env v) := by
  cases v with
  | str s =>
    rw [substitute]
    exact .text s
  | list items =>
    rw [substitute, substituteItems_eq]
    exact .list (List.length_map _)
  | table entries =>
    rw [substitute, substituteEntries_eq]
    apply Rewritten.table
    rw [Entries.keys, List.map_map]
    rfl
  | _ =>
    rw [substitute_of_isPlain env rfl]
    exact .leaf rfl

theorem children_substitute (v : Value) :
    children (substitute env v) = (children v).map (substitute env) := by
  cases v with
  | str s => rw [substitute]; rfl
  | list items => rw [substitute, substituteItems_eq]; rfl
  | table entries =>
    rw [substitute, substituteEntries_eq, children, List.map_map, children, List.map_map]
    rfl
  | _ => rw [substitute_of_isPlain env rfl]; rfl

theorem rewritten_at? (v : Value) (address : List Nat) :
    Option.Rel (Rewritten env) (at? v address) (at? (substitute env v) address) := by
  induction address generalizing v with
  | nil => exact .some (rewritten_substitute env v)
  | cons i address ih =>
    -- Going one level down commutes with substitution.
    rw [at?, at?, children_substitute, List.getElem?_map]
    cases (children v)[i]? with
    | none => exact .none
    | some u => exact ih u

/-- Each placeholder is replaced once, whatever stands around it, and all else stays: a text is cut
into its placeholders and what stands between them, and the values that come in are not looked at
again. A value keeps its shape; only the texts in it are rewritten. -/
theorem substitution_replaces_once :
    (∀ pre name post : String, IsVariableName name.toList →
      replaced env (pre ++ placeholder name ++ post) =
        replaced env pre ++ (env.get? name).getD (placeholder name) ++ replaced env post) ∧
    (∀ s : String, Bare s.toList → replaced env s = s) ∧
    (∀ s : String, ∃ t : Template, s.toList = t.fill written ∧
      (replaced env s).toList = t.fill (meaning env)) ∧
    ∀ v address, Option.Rel (Rewritten env) (at? v address) (at? (substitute env v) address) := by
  refine ⟨fun pre name post hname => replaced_append_placeholder env hname pre post,
    fun s hs => ?_, fun s => ?_, rewritten_at? env⟩
  · rw [replaced, expand_of_bare env hs, String.ofList_toList]
  · obtain ⟨t, ht⟩ := Template.exists_fill s.toList
    refine ⟨t, ht.symm, ?_⟩
    rw [replaced, String.toList_ofList, ← ht, t.expand_fill]

theorem substitution_replaces_once_lookalike :
    let env := [("A", placeholder "B"), ("B", "b")]
    IsVariableName "A".toList ∧ Bare "$\x7bB".toList ∧
      replaced env ("$\x7bB" ++ placeholder "A" ++ "\x7d") =
        "$\x7bB" ++ placeholder "B" ++ "\x7d" := by
  intro env
  obtain ⟨hcut, hbare, -⟩ := substitution_replaces_once env
  have hname : IsVariableName "A".toList := ⟨'A', [], rfl, by decide, by simp⟩
  have hfront : Bare "$\x7bB".toList := by
    intro name _ hinside
    have hbrace : '}' ∈ written name := by simp [written]
    exact absurd (hinside.subset hbrace) (by decide)
  have hbehind : Bare "\x7d".toList := by
    intro name _ hinside
    have hdollar : '$' ∈ written name := by simp [written]
    exact absurd (hinside.subset hdollar) (by decide)
  refine ⟨hname, hfront, ?_⟩
  rw [hcut _ _ _ hname, hbare _ hfront, hbare _ hbehind]
  rfl

end TexHtml.Placeholder
