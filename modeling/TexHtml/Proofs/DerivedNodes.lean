import TexHtml.Proofs.Printable

namespace TexHtml

namespace Printing

open Shape

def OpenLast (ts : List Token) : Prop :=
  ∀ us t vs, ts = us ++ t :: vs → OpenEnded t.shape → vs = []

theorem OpenLast.tail {ts us : List Token} (h : OpenLast (ts ++ us)) : OpenLast us := by
  rintro vs t ws rfl
  exact h (ts ++ vs) t ws (List.append_assoc _ _ _).symm

theorem OpenLast.of_cons {t : Token} {ts : List Token} (h : OpenLast (t :: ts)) : OpenLast ts :=
  @OpenLast.tail [t] ts h

theorem OpenLast.cons {t : Token} {ts : List Token} (ht : OpenEnded t.shape → ts = [])
    (h : OpenLast ts) : OpenLast (t :: ts) := by
  intro us u vs he hu
  cases us with
  | nil =>
    cases he
    exact ht hu
  | cons v us =>
    cases he
    exact h us u vs rfl hu

theorem exists_init {toks : List Token} (h : WellFormed (toks.map Token.shape)) :
    ∃ ts e, toks = ts ++ [e] ∧ e.kind = .endOfInput ∧ (∀ t ∈ ts, Proper t.shape) ∧ OpenLast ts := by
  match toks, h with
  | [e], h => exact ⟨[], e, rfl, congrArg Prod.fst h, by simp, by simp [OpenLast]⟩
  | t :: u :: toks, ⟨hp, htu, hrest⟩ =>
    obtain ⟨ts, e, heq, he, hproper, hlast⟩ := @exists_init (u :: toks) hrest
    refine ⟨t :: ts, e, by rw [heq, List.cons_append], he, List.forall_mem_cons.mpr ⟨hp, hproper⟩, ?_⟩
    refine hlast.cons fun ho => ?_
    have hnil : toks = [] := by simpa using (hrest.head_eq_end (htu.2 ho)).2
    subst hnil
    simpa using congrArg List.length heq

theorem printable_text {k : Nat} {t : Token} (h : Proper t.shape) (ht : t.kind = .text) :
    Printable k (.text t.content) := by
  have hp : IsText t.content := by rwa [Token.shape, ht] at h
  have hs : t.content ≠ " " := by
    intro he
    have hb := hp.2.2
    rw [he] at hb
    exact absurd (hb ' ' rfl) (by decide)
  refine .text ?_
  rw [textShape, if_neg hs]
  exact hp

def PrintableLists (k : Nat) (lists : List (List Node)) : Prop :=
  ∃ j, (j < k ∨ lists = []) ∧ ∀ children ∈ lists, ∀ n ∈ children, Printable j n

theorem printable_command {k i j : Nat} {t : Token} {optional required : List (List Node)}
    {nodes : List Node} (hp : Proper t.shape) (ho : ¬ OpenEnded t.shape) (ht : t.kind = .command)
    (hs : PrintableLists i optional) (hr : PrintableLists j required)
    (ha : List.Forall₂ Grammar.Argument required nodes) (hik : i ≤ k) (hjk : j ≤ k) :
    Printable k (.command t.content nodes optional.flatten) := by
  rw [Token.shape, ht] at hp ho
  obtain ⟨i', hi, hoptional⟩ := hs
  obtain ⟨j', hj, hrequired⟩ := hr
  have hflat : ∀ n ∈ optional.flatten, Printable i' n := by
    intro n hn
    obtain ⟨children, hm, hn⟩ := List.mem_flatten.mp hn
    exact hoptional children hm n hn
  refine .command hp ho (hi.imp ?_ ?_) hflat (hj.imp ?_ ?_) (.of_arguments ha hrequired)
  · omega
  · rintro rfl
    rfl
  · omega
  · rintro rfl
    cases ha
    rfl

mutual

theorem printable_of_elements {inside : Option Delimiter} {ts rest : List Token}
    {nodes : List Node} {k : Nat} (h : Grammar.Elements inside ts nodes k)
    (hp : ∀ t ∈ ts, Proper t.shape) (ho : OpenLast (ts ++ rest)) :
    PrintableNodes k (rest = []) nodes := by
  match h with
  | .nil => exact .nil
  | .text ht tail =>
    rw [List.forall_mem_cons] at hp
    exact .cons (printable_text hp.1 ht) (printable_of_elements tail hp.2 ho.of_cons)
  | @Grammar.Elements.math _ t ts _ _ display ht tail =>
    rw [List.forall_mem_cons] at hp
    by_cases hopen : OpenEnded t.shape
    · obtain ⟨rfl, hrest⟩ := List.append_eq_nil_iff.mp (ho [] t (ts ++ rest) rfl hopen)
      cases tail.nodes_eq_nil
      obtain ⟨rfl, hcontent⟩ : display = false ∧ t.content = "" := by
        simpa [OpenEnded, Token.shape, ht] using hopen
      exact .last hrest (.inr (by rw [hcontent]))
    · refine .cons (.math ?_ ?_) (printable_of_elements tail hp.2 ho.of_cons)
      · rw [← ht]
        exact hp.1
      · rw [← ht]
        exact hopen
  | .newline ht tail =>
    exact .cons (.text rfl) (printable_of_elements tail (List.forall_mem_cons.mp hp).2 ho.of_cons)
  | .stray ht hd tail => exact printable_of_elements tail (List.forall_mem_cons.mp hp).2 ho.of_cons
  | .group first tail =>
    rw [List.forall_mem_append] at hp
    rw [List.append_assoc] at ho
    obtain ⟨j, hj, hc⟩ := printable_of_group first hp.1 ho
    exact .cons (.group (by omega) hc) ((printable_of_elements tail hp.2 ho.tail).mono (by omega))
  | @Grammar.Elements.command _ t os rs ts _ _ _ _ _ _ _ ht hos hb hrs hq ha tail =>
    rw [List.forall_mem_cons, List.forall_mem_append, List.forall_mem_append] at hp
    obtain ⟨ht', hpo, hpr, hpt⟩ := hp
    rw [List.cons_append, List.append_assoc, List.append_assoc] at ho
    by_cases hopen : OpenEnded t.shape
    · have hnil := ho [] t _ rfl hopen
      simp only [List.append_eq_nil_iff] at hnil
      obtain ⟨rfl, rfl, rfl, hrest⟩ := hnil
      cases hos.lists_eq_nil
      cases hrs.lists_eq_nil
      cases tail.nodes_eq_nil
      cases ha
      have hcontent : t.content = "" := by simpa [OpenEnded, Token.shape, ht] using hopen
      exact .last hrest (.inl (by rw [hcontent]; rfl))
    · have ho' := ho.of_cons
      exact .cons (printable_command ht' hopen ht (printable_of_groups hos hpo ho')
        (printable_of_groups hrs hpr ho'.tail) ha (by omega) (by omega))
        ((printable_of_elements tail hpt ho'.tail.tail).mono (by omega))

theorem printable_of_group {d : Delimiter} {gs rest : List Token} {children : List Node} {k : Nat}
    (h : Grammar.Group d gs children k) (hp : ∀ t ∈ gs, Proper t.shape)
    (ho : OpenLast (gs ++ rest)) : ∃ j < k, ∀ n ∈ children, Printable j n := by
  match h with
  | @Grammar.Group.enclosed _ _ c _ _ j hopen body hclose =>
    rw [List.forall_mem_cons, List.forall_mem_append] at hp
    rw [List.cons_append, List.append_assoc] at ho
    exact ⟨j, Nat.lt_succ_self j, (printable_of_elements body hp.2.1 ho.of_cons).printable (by simp)⟩

theorem printable_of_groups {d : Delimiter} {ts rest : List Token} {lists : List (List Node)}
    {k : Nat} (h : Grammar.Groups d ts lists k) (hp : ∀ t ∈ ts, Proper t.shape)
    (ho : OpenLast (ts ++ rest)) : PrintableLists k lists := by
  match h with
  | .nil => exact ⟨0, .inr rfl, by simp⟩
  | .cons first tail =>
    rw [List.forall_mem_append] at hp
    rw [List.append_assoc] at ho
    obtain ⟨i, hi, hfirst⟩ := printable_of_group first hp.1 ho
    obtain ⟨j, hj, htail⟩ := printable_of_groups tail hp.2 ho.tail
    rcases hj with hj | rfl
    · refine ⟨max i j, .inl (by omega), List.forall_mem_cons.mpr ⟨fun n hn => ?_, ?_⟩⟩
      · exact (hfirst n hn).mono (by omega)
      · exact fun children hm n hn => (htail children hm n hn).mono (by omega)
    · exact ⟨i, .inl (by omega), by simpa using hfirst⟩

end

end Printing

end TexHtml
