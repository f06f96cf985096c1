import Mathlib.Data.List.Basic
import TexHtml.Proofs.Rendering

namespace TexHtml.Html

def entity (c : Char) : String :=
  if c = '&' then "&amp;"
  else if c = '<' then "&lt;"
  else if c = '>' then "&gt;"
  else if c = '"' then "&quot;"
  else if c = '\'' then "&#39;"
  else String.singleton c

def unescapeAll : List Char → List Char
  | [] => []
  | c :: rest =>
    match entities.find? fun e => e.2.toList.isPrefixOf (c :: rest) with
    | some e => e.1 :: unescapeAll (rest.drop (e.2.toList.length - 1))
    | none => c :: unescapeAll rest
termination_by cs => cs.length
decreasing_by
  · exact Nat.lt_succ_of_le (List.drop_suffix _ _).length_le
  · exact Nat.lt_succ_self _

def unescape (s : String) : String := String.ofList (unescapeAll s.toList)

/-- If no replacement puts in a character that is replaced after it, all replacements can be made in
one pass. -/
theorem replaced_eq_flatMap {es : List (Char × String)}
    (h : es.Pairwise fun e f => f.1 ∉ e.2.toList) (s : List Char) :
    es.foldl (fun t e => replaceChar e.1 e.2.toList t) s =
      s.flatMap fun c => ((es.lookup c).getD (String.singleton c)).toList := by
  induction es generalizing s with
  | nil => simp
  | cons e es ih =>
    obtain ⟨x, replacement⟩ := e
    obtain ⟨he, hes⟩ := List.pairwise_cons.mp h
    have hsingle : ∀ c ∈ replacement.toList,
        ((es.lookup c).getD (String.singleton c)).toList = [c] := by
      intro c hc
      have hnone : es.lookup c = none := by
        rw [List.lookup_eq_none_iff]
        intro f hf
        have hne : c ≠ f.1 := fun hcf => he f hf (hcf ▸ hc)
        simpa using hne
      simp [hnone]
    have hkept : replacement.toList.flatMap
        (fun c => ((es.lookup c).getD (String.singleton c)).toList) = replacement.toList := by
      rw [List.flatMap_congr hsingle, List.flatMap_singleton']
    rw [List.foldl_cons, ih hes, replaceChar, List.flatMap_assoc]
    apply List.flatMap_congr
    intro c _
    by_cases hc : c = x
    · simp [hc, hkept]
    · have hbeq : (c == x) = false := beq_false_of_ne hc
      simp [hc, List.lookup_cons, hbeq]

theorem entity_eq (c : Char) : entity c = (entities.lookup c).getD (String.singleton c) := by
  simp only [entity, entities, List.lookup_cons, List.lookup_nil]
  grind

theorem toList_escape (t : String) :
    (escape t).toList = t.toList.flatMap fun c => (entity c).toList := by
  have htable : entities.Pairwise fun e f => f.1 ∉ e.2.toList := by decide
  rw [escape, String.toList_ofList, replaced_eq_flatMap htable]
  simp only [entity_eq]

theorem escape_eq_join (t : String) : escape t = String.join (t.toList.map entity) := by
  apply String.toList_injective
  rw [toList_escape, String.toList_join]
  simp [List.flatMap_map]

theorem entity_cases (c : Char) :
    (c, entity c) ∈ entities ∨ (entity c).toList = [c] ∧ c ≠ '&' := by
  cases h : entities.lookup c with
  | some s =>
    left
    rw [entity_eq, h]
    exact mem_of_lookup h
  | none =>
    right
    refine ⟨by simp [entity_eq, h], ?_⟩
    rintro rfl
    cases h

theorem exists_entity_eq {e : Char × String} (h : e ∈ entities) :
    ∃ rest, e.2.toList = '&' :: rest ∧ '&' ∉ rest := by
  have htable : ∀ e ∈ entities, e.2.toList.head? = some '&' ∧ '&' ∉ e.2.toList.tail := by decide
  obtain ⟨hhead, htail⟩ := htable e h
  obtain ⟨rest, hrest⟩ := List.head?_eq_some_iff.mp hhead
  exact ⟨rest, hrest, by simpa [hrest] using htail⟩

theorem entity_unique {e f : Char × String} (he : e ∈ entities) (hf : f ∈ entities)
    {cs : List Char} (hec : e.2.toList <+: cs) (hfc : f.2.toList <+: cs) : e = f := by
  have htable : ∀ e ∈ entities, ∀ f ∈ entities, e.2.toList <+: f.2.toList → e = f := by decide
  rcases List.prefix_or_prefix_of_prefix hec hfc with h | h
  · exact htable e he f hf h
  · exact (htable f hf e he h).symm

theorem unescapeAll_entity {e : Char × String} (he : e ∈ entities) (rest : List Char) :
    unescapeAll (e.2.toList ++ rest) = e.1 :: unescapeAll rest := by
  obtain ⟨tail, hcons, -⟩ := exists_entity_eq he
  have hfind : entities.find? (fun f => f.2.toList.isPrefixOf (e.2.toList ++ rest)) = some e := by
    cases h : entities.find? fun f => f.2.toList.isPrefixOf (e.2.toList ++ rest) with
    | none =>
      have hnot := List.find?_eq_none.mp h e he
      simp at hnot
    | some f =>
      have hf : f.2.toList <+: e.2.toList ++ rest := by simpa using List.find?_some h
      rw [entity_unique (List.mem_of_find?_eq_some h) he hf (List.prefix_append _ _)]
  rw [hcons, List.cons_append] at hfind ⊢
  rw [unescapeAll, hfind]
  simp [hcons]

theorem unescapeAll_plain {c : Char} (hc : c ≠ '&') (rest : List Char) :
    unescapeAll (c :: rest) = c :: unescapeAll rest := by
  have hfind : entities.find? (fun e => e.2.toList.isPrefixOf (c :: rest)) = none := by
    apply List.find?_eq_none.mpr
    intro e he hp
    obtain ⟨tail, hcons, -⟩ := exists_entity_eq he
    rw [List.isPrefixOf_iff_prefix, hcons, List.cons_prefix_cons] at hp
    exact hc hp.1.symm
  rw [unescapeAll, hfind]

theorem unescapeAll_flatMap_entity (cs : List Char) :
    unescapeAll (cs.flatMap fun c => (entity c).toList) = cs := by
  induction cs with
  | nil => rw [List.flatMap_nil, unescapeAll]
  | cons c cs ih =>
    rw [List.flatMap_cons]
    rcases entity_cases c with he | ⟨hself, hc⟩
    · rw [unescapeAll_entity he, ih]
    · rw [hself, List.singleton_append, unescapeAll_plain hc, ih]

theorem unescape_escape (t : String) : unescape (escape t) = t := by
  rw [unescape, toList_escape, unescapeAll_flatMap_entity, String.ofList_toList]

theorem exists_toList_entity (c : Char) :
    ∃ x tail, (entity c).toList = x :: tail ∧ '&' ∉ tail ∧
      (x = '&' → (c, entity c) ∈ entities) := by
  rcases entity_cases c with he | ⟨hself, hc⟩
  · obtain ⟨tail, hcons, htail⟩ := exists_entity_eq he
    exact ⟨'&', tail, hcons, htail, fun _ => he⟩
  · exact ⟨c, [], hself, List.not_mem_nil, fun h => absurd h hc⟩

theorem ampersand_begins_entity {cs before after : List Char}
    (h : (cs.flatMap fun c => (entity c).toList) = before ++ '&' :: after) :
    ∃ e ∈ entities, e.2.toList <+: '&' :: after := by
  induction cs generalizing before with
  | nil => simp at h
  | cons c cs ih =>
    obtain ⟨x, tail, hcons, htail, hx⟩ := exists_toList_entity c
    rw [List.flatMap_cons] at h
    cases before with
    | nil =>
      have hhead : x = '&' := by
        rw [hcons] at h
        exact (List.cons.inj h).1
      exact ⟨_, hx hhead, _, h⟩
    | cons b before =>
      rw [hcons] at h
      rcases List.append_eq_append_iff.mp (List.cons.inj h).2 with
        ⟨others, -, hrest⟩ | ⟨inner, hinner, hafter⟩
      · exact ih hrest
      · -- The sign cannot stand further on in what was written for `c`.
        cases inner with
        | nil => exact @ih [] hafter.symm
        | cons y inner =>
          obtain ⟨rfl, -⟩ := List.cons.inj hafter
          exact absurd (by simp [hinner]) htail

/-- The replacements one after the other write each character or its entity once. Of the characters
that have an entity only the ampersand is left, at the beginning of an entity, and reading the
entities gives back the text. -/
theorem escape_in_one_pass (t : String) :
    escape t = String.join (t.toList.map entity) ∧
      (∀ c ∈ ['<', '>', '"', '\''], c ∉ (escape t).toList) ∧
      (∀ before after, (escape t).toList = before ++ '&' :: after →
        ∃ e ∈ entities, e.2.toList <+: '&' :: after) ∧
      unescape (escape t) = t ∧
      (∀ s, escape s = escape t → s = t) ∧
      ∀ s, escape (t ++ s) = escape t ++ escape s := by
  refine ⟨escape_eq_join t, fun c hc => not_mem_escape hc t, ?_, unescape_escape t, ?_,
    escape_append t⟩
  · intro before after h
    rw [toList_escape] at h
    exact ampersand_begins_entity h
  · intro s h
    rw [← unescape_escape s, h, unescape_escape]

theorem escape_in_one_pass_entity :
    '<' ∈ ['<', '>', '"', '\''] ∧ '<' ∉ (escape "&lt;<'").toList ∧
      (escape "&lt;<'").toList = "&amp;lt;".toList ++ '&' :: "lt;&#39;".toList ∧
      (∃ e ∈ entities, e.2.toList <+: '&' :: "lt;&#39;".toList) ∧
      unescape (escape "&lt;<'") = "&lt;<'" ∧ escape "<<'" ≠ escape "&lt;<'" := by
  obtain ⟨-, habsent, hbegins, hback, hinj, -⟩ := escape_in_one_pass "&lt;<'"
  have hwritten : (escape "&lt;<'").toList = "&amp;lt;".toList ++ '&' :: "lt;&#39;".toList := by
    decide
  exact ⟨by decide, habsent _ (by decide), hwritten, hbegins _ _ hwritten, hback,
    fun h => absurd (hinj _ h) (by decide)⟩

end TexHtml.Html
