import Mathlib.Data.List.Nodup
import TexHtml.Json.Dump
import TexHtml.Value.Outline

/-!
The JSON text of a value. What is written depends on the value only through its canonical form, in
which tuples are lists and the entries of each table are sorted by their keys; the text follows the
shape of that form.
-/

namespace TexHtml

namespace Value

/-- A value that JSON has a form for: it is made of null, truth values, whole numbers, texts, lists
and tables with distinct text keys, and of tuples if they are allowed. -/
inductive IsJson (tuples : Bool) : Value → Prop
  | null : IsJson tuples .null
  | bool (b : Bool) : IsJson tuples (.bool b)
  | int (n : Int) : IsJson tuples (.int n)
  | str (s : String) : IsJson tuples (.str s)
  | list {items : List Value} (h : ∀ v ∈ items, IsJson tuples v) : IsJson tuples (.list items)
  | tuple {items : List Value} (ht : tuples = true) (h : ∀ v ∈ items, IsJson tuples v) :
      IsJson tuples (.tuple items)
  | record {fields : List (String × Value)} (hdistinct : (fields.map Prod.fst).Nodup)
      (h : ∀ f ∈ fields, IsJson tuples f.2) : IsJson tuples (.record fields)

mutual

def fits : Value → Bool
  | .int n => n.natAbs < Nat.pow 10 digitLimit
  | .list items => fitAll items
  | .tuple items => fitAll items
  | .table entries => entriesFit entries
  | _ => true

def fitAll : List Value → Bool
  | [] => true
  | v :: rest => fits v && fitAll rest

def entriesFit : List (Value × Value) → Bool
  | [] => true
  | (_, v) :: rest => fits v && entriesFit rest

end

theorem fitAll_eq (items : List Value) : fitAll items = items.all fits := by
  induction items with
  | nil => rfl
  | cons v items ih => rw [fitAll, ih, List.all_cons]

theorem fits_record (fields : List (String × Value)) :
    fits (.record fields) = fields.all fun f => fits f.2 := by
  rw [record, fits]
  induction fields with
  | nil => rfl
  | cons f fields ih => rw [List.map_cons, entriesFit, ih, List.all_cons]

mutual

def canonical : Value → Value
  | .list items => .list (canonicalItems items)
  | .tuple items => .list (canonicalItems items)
  | .table entries => .table ((canonicalEntries entries).mergeSort Json.textKeyLE)
  | v => v

def canonicalItems : List Value → List Value
  | [] => []
  | v :: rest => canonical v :: canonicalItems rest

def canonicalEntries : List (Value × Value) → List (Value × Value)
  | [] => []
  | (key, v) :: rest => (key, canonical v) :: canonicalEntries rest

end

theorem canonicalItems_eq (items : List Value) : canonicalItems items = items.map canonical := by
  induction items with
  | nil => rfl
  | cons v items ih => rw [canonicalItems, ih, List.map_cons]

theorem canonicalEntries_eq (entries : List (Value × Value)) :
    canonicalEntries entries = entries.map fun e => (e.1, canonical e.2) := by
  induction entries with
  | nil => rfl
  | cons e entries ih =>
    obtain ⟨key, v⟩ := e
    rw [canonicalEntries, ih, List.map_cons]

def byName {α : Type} (a b : String × α) : Bool := !(b.1 < a.1 : Bool)

section Sorting

variable {α : Type}

theorem byName_iff {a b : String × α} : byName a b ↔ ¬ b.1 < a.1 := by
  rw [byName, Bool.not_eq_true', decide_eq_false_iff_not]

theorem pairwise_byName (fields : List (String × α)) :
    (fields.mergeSort byName).Pairwise fun a b => byName a b := by
  apply List.pairwise_mergeSort
  · intro a b c hab hbc
    rw [byName_iff, String.not_lt] at hab hbc ⊢
    exact String.le_trans hab hbc
  · intro a b
    rw [Bool.or_eq_true, byName_iff, byName_iff, String.not_lt, String.not_lt]
    exact String.le_total a.1 b.1

theorem mergeSort_eq_of_perm {fields others : List (String × α)} (hperm : fields.Perm others)
    (hdistinct : (fields.map Prod.fst).Nodup) :
    fields.mergeSort byName = others.mergeSort byName := by
  apply List.Perm.eq_of_pairwise ?_ (pairwise_byName fields) (pairwise_byName others)
  · exact (List.mergeSort_perm fields byName).trans
      (hperm.trans (List.mergeSort_perm others byName).symm)
  · intro a b ha hb hab hba
    rw [List.mem_mergeSort] at ha hb
    rw [byName_iff, String.not_lt] at hab hba
    exact List.inj_on_of_nodup_map hdistinct ha (hperm.mem_iff.mpr hb) (String.le_antisymm hab hba)

theorem mergeSort_textKeyLE (fields : List (String × α)) :
    (fields.map fun f => (Value.str f.1, f.2)).mergeSort Json.textKeyLE =
      (fields.mergeSort byName).map fun f => (.str f.1, f.2) := by
  symm
  apply List.map_mergeSort
  intro a _ b _
  rfl

theorem map_mergeSort_byName {β : Type} (g : α → β) (fields : List (String × α)) :
    (fields.mergeSort byName).map (fun f => (f.1, g f.2)) =
      (fields.map fun f => (f.1, g f.2)).mergeSort byName :=
  List.map_mergeSort fun _ _ _ _ => rfl

end Sorting

theorem canonical_list (items : List Value) :
    canonical (.list items) = .list (items.map canonical) := by
  rw [canonical, canonicalItems_eq]

theorem canonical_tuple (items : List Value) :
    canonical (.tuple items) = .list (items.map canonical) := by
  rw [canonical, canonicalItems_eq]

theorem canonical_record (fields : List (String × Value)) :
    canonical (.record fields) =
      .record ((fields.mergeSort byName).map fun f => (f.1, canonical f.2)) := by
  rw [record, canonical, canonicalEntries_eq, List.map_map, map_mergeSort_byName, record]
  have hmap : (fields.map fun f => (f.1, canonical f.2)).map (fun f => (Value.str f.1, f.2)) =
      fields.map ((fun e => (e.1, canonical e.2)) ∘ fun f => (Value.str f.1, f.2)) :=
    List.map_map
  rw [← hmap, mergeSort_textKeyLE]

theorem isJson_canonical {tuples : Bool} {v : Value} (h : IsJson tuples v) :
    IsJson false v.canonical := by
  induction h with
  | null => exact .null
  | bool b => exact .bool b
  | int n => exact .int n
  | str s => exact .str s
  | list h ih =>
    rw [canonical_list]
    exact .list (List.forall_mem_map.mpr ih)
  | tuple ht h ih =>
    rw [canonical_tuple]
    exact .list (List.forall_mem_map.mpr ih)
  | @record fields hdistinct h ih =>
    have hperm := List.mergeSort_perm fields byName
    rw [canonical_record]
    apply IsJson.record
    · rw [List.map_map]
      exact ((hperm.map Prod.fst).nodup_iff).mpr hdistinct
    · rw [List.forall_mem_map]
      exact fun f hf => ih f (hperm.mem_iff.mp hf)

mutual

inductive Rearranged : Value → Value → Prop
  | same (v : Value) : Rearranged v v
  | list {items items' : List Value} (h : RearrangedItems items items') :
      Rearranged (.list items) (.list items')
  | tuple {items items' : List Value} (h : RearrangedItems items items') :
      Rearranged (.tuple items) (.tuple items')
  | record {fields middle fields' : List (String × Value)} (h : RearrangedFields fields middle)
      (hperm : middle.Perm fields') : Rearranged (.record fields) (.record fields')

inductive RearrangedItems : List Value → List Value → Prop
  | nil : RearrangedItems [] []
  | cons {v v' : Value} {rest rest' : List Value} (h : Rearranged v v')
      (hrest : RearrangedItems rest rest') : RearrangedItems (v :: rest) (v' :: rest')

inductive RearrangedFields : List (String × Value) → List (String × Value) → Prop
  | nil : RearrangedFields [] []
  | cons {name : String} {v v' : Value} {rest rest' : List (String × Value)} (h : Rearranged v v')
      (hrest : RearrangedFields rest rest') :
      RearrangedFields ((name, v) :: rest) ((name, v') :: rest')

end

theorem RearrangedFields.names_eq {fields fields' : List (String × Value)} :
    RearrangedFields fields fields' → fields'.map Prod.fst = fields.map Prod.fst
  | .nil => rfl
  | .cons _ hrest => congrArg (_ :: ·) hrest.names_eq

theorem record_injective {fields others : List (String × Value)}
    (h : record fields = record others) : fields = others := by
  have hfield : Function.Injective fun f : String × Value => (Value.str f.1, f.2) := by
    rintro ⟨a, v⟩ ⟨b, w⟩ heq
    cases heq
    rfl
  exact List.map_injective_iff.mpr hfield (Value.table.inj h)

theorem rearrangedItems_map {items : List Value} {g : Value → Value}
    (h : ∀ v ∈ items, Rearranged v (g v)) : RearrangedItems items (items.map g) := by
  induction items with
  | nil => exact .nil
  | cons v items ih =>
    obtain ⟨hv, hitems⟩ := List.forall_mem_cons.mp h
    exact .cons hv (ih hitems)

theorem rearrangedFields_map {fields : List (String × Value)} {g : Value → Value}
    (h : ∀ f ∈ fields, Rearranged f.2 (g f.2)) :
    RearrangedFields fields (fields.map fun f => (f.1, g f.2)) := by
  induction fields with
  | nil => exact .nil
  | cons f fields ih =>
    obtain ⟨hf, hfields⟩ := List.forall_mem_cons.mp h
    exact .cons hf (ih hfields)

theorem rearranged_canonical {v : Value} (h : IsJson false v) : Rearranged v v.canonical := by
  induction h with
  | list h ih =>
    rw [canonical_list]
    exact .list (rearrangedItems_map ih)
  | tuple ht => cases ht
  | @record fields hdistinct h ih =>
    rw [canonical_record]
    exact .record (rearrangedFields_map ih) ((List.mergeSort_perm fields byName).symm.map _)
  | _ => exact .same _

theorem IsJson.fields {tuples : Bool} {fields : List (String × Value)}
    (h : IsJson tuples (.record fields)) :
    (fields.map Prod.fst).Nodup ∧ ∀ f ∈ fields, IsJson tuples f.2 := by
  generalize hv : Value.record fields = v at h
  cases h with
  | record hdistinct h => cases record_injective hv; exact ⟨hdistinct, h⟩
  | _ => cases hv

end Value

namespace Json

open Value

def plainStyle (indent : Option String) (colon : String) : Style :=
  ⟨indent, ",", colon, false, true, false, true, .asText⟩

section Spelling

variable (style : Style) (level : Nat)

def newline : List Char := (lineBreak style level).toList

def bracketed (opening closing : Char) : List (List Char) → List Char
  | [] => [opening, closing]
  | part :: parts =>
    opening :: (newline style (level + 1) ++ (part ++
      (parts.flatMap (fun q => ',' :: (newline style (level + 1) ++ q)) ++
        (newline style level ++ [closing]))))

theorem all_newline {p : Char → Bool} (hbreak : p '\n') {indent : String}
    (hindent : indent.toList.all p) (level : Nat) :
    (newline (indentedStyle indent) level).all p := by
  rw [List.all_eq_true] at hindent ⊢
  intro c hc
  rw [newline, lineBreak, indentedStyle] at hc
  simp only [String.toList_append, String.toList_join, List.mem_append, List.mem_flatMap] at hc
  rcases hc with hfirst | ⟨copy, hcopy, hc⟩
  · rw [List.mem_singleton.mp hfirst]
    exact hbreak
  · rw [List.eq_of_mem_replicate hcopy] at hc
    exact hindent c hc

def quotedChars (s : String) : List Char := '"' :: (s.toList.flatMap (escapeChar false) ++ ['"'])

def member (name : String) (text : List Char) : List Char :=
  quotedChars name ++ (style.keySeparator.toList ++ text)

end Spelling

def shortEscapes : List (Char × Char) :=
  [('"', '"'), ('\\', '\\'), ('n', '\n'), ('r', '\r'), ('t', '\t'), ('f', '\x0c'), ('b', '\x08')]

theorem escapeChar_cases (c : Char) :
    (∃ letter, (letter, c) ∈ shortEscapes ∧ escapeChar false c = ['\\', letter]) ∨
    (c.toNat < 32 ∧ escapeChar false c = unitEscape c.toNat) ∨
    (c ≠ '"' ∧ c ≠ '\\' ∧ 32 ≤ c.toNat ∧ escapeChar false c = [c]) := by
  by_cases hshort : c ∈ shortEscapes.map Prod.snd
  · left
    obtain ⟨⟨letter, c'⟩, hmem, rfl⟩ := List.mem_map.mp hshort
    have hall : shortEscapes.all fun p => escapeChar false p.2 = ['\\', p.1] := by decide
    exact ⟨letter, hmem, of_decide_eq_true (List.all_eq_true.mp hall _ hmem)⟩
  · right
    simp only [shortEscapes, List.map_cons, List.map_nil, List.mem_cons, List.not_mem_nil,
      or_false, not_or] at hshort
    obtain ⟨hquote, hslash, hn, hr, ht, hf, hb⟩ := hshort
    rw [escapeChar, if_neg hquote, if_neg hslash, if_neg hn, if_neg hr, if_neg ht, if_neg hf,
      if_neg hb]
    by_cases hcontrol : c.toNat < 32
    · exact .inl ⟨hcontrol, if_pos hcontrol⟩
    · exact .inr ⟨hquote, hslash, by omega, if_neg hcontrol⟩

mutual

def spell (style : Style) (level : Nat) : Value → List Char
  | .null => ['n', 'u', 'l', 'l']
  | .bool b => if b then ['t', 'r', 'u', 'e'] else ['f', 'a', 'l', 's', 'e']
  | .int n => (toString n).toList
  | .str s => quotedChars s
  | .list items => bracketed style level '[' ']' (spellItems style (level + 1) items)
  | .table entries => bracketed style level '{' '}' (spellEntries style (level + 1) entries)
  | _ => []

def spellItems (style : Style) (level : Nat) : List Value → List (List Char)
  | [] => []
  | v :: rest => spell style level v :: spellItems style level rest

def spellEntries (style : Style) (level : Nat) : List (Value × Value) → List (List Char)
  | [] => []
  | (key, v) :: rest =>
    member style (key.str?.getD "") (spell style level v) :: spellEntries style level rest

end

section Spelling

variable (style : Style) (level : Nat)

theorem spell_list (items : List Value) :
    spell style level (.list items) =
      bracketed style level '[' ']' (items.map (spell style (level + 1))) := by
  have hitems : spellItems style (level + 1) items = items.map (spell style (level + 1)) := by
    induction items with
    | nil => rfl
    | cons v items ih => rw [spellItems, ih, List.map_cons]
  rw [spell, hitems]

theorem spell_record (fields : List (String × Value)) :
    spell style level (.record fields) =
      bracketed style level '{' '}'
        (fields.map fun f => member style f.1 (spell style (level + 1) f.2)) := by
  have hentries : spellEntries style (level + 1) (fields.map fun f => (.str f.1, f.2)) =
      fields.map fun f => member style f.1 (spell style (level + 1) f.2) := by
    induction fields with
    | nil => rfl
    | cons f fields ih =>
      rw [List.map_cons, spellEntries, ih, List.map_cons]
      rfl
  rw [record, spell, hentries]

theorem intercalate_cons (separator part : List Char) (parts : List (List Char)) :
    separator.intercalate (part :: parts) = part ++ parts.flatMap (separator ++ ·) := by
  induction parts generalizing part with
  | nil => simp
  | cons q parts ih =>
    rw [List.intercalate_cons_cons, ih, List.flatMap_cons, List.append_assoc, List.append_assoc]

variable {style} (hseparator : style.itemSeparator = ",")

include hseparator

theorem enclose_eq (opening closing : Char) {o c : String} (ho : o.toList = [opening])
    (hc : c.toList = [closing]) {parts : List (List Char)} (hparts : parts ≠ []) :
    enclose style level o c (parts.map String.ofList) =
      String.ofList (bracketed style level opening closing parts) := by
  obtain ⟨part, parts, rfl⟩ := List.exists_cons_of_ne_nil hparts
  have htexts : ((part :: parts).map String.ofList).map String.toList = part :: parts := by
    rw [List.map_map]
    exact List.map_id'' (fun _ => String.toList_ofList) _
  rw [← String.toList_inj, enclose, hseparator, String.toList_ofList]
  simp only [String.toList_append, String.toList_intercalate, htexts, intercalate_cons, bracketed,
    newline, ho, hc]
  simp

end Spelling

theorem toList_toString (n : Int) :
    (toString n).toList = (if n < 0 then ['-'] else []) ++ Nat.toDigits 10 n.natAbs := by
  rw [Int.toString_eq_repr]
  cases n with
  | ofNat m =>
    rw [Int.repr, Nat.repr_eq_ofList_toDigits, String.toList_ofList]
    rfl
  | negSucc m =>
    rw [Int.repr, Nat.repr_eq_ofList_toDigits, String.toList_append,
      @String.toList_ofList (Nat.toDigits 10 m.succ), if_pos (Int.negSucc_lt_zero m)]
    rfl

theorem toNat_of_isDigit {c : Char} (h : c.isDigit) : 48 ≤ c.toNat ∧ c.toNat ≤ 57 := by
  simp only [Char.isDigit, Bool.and_eq_true, decide_eq_true_eq] at h
  exact ⟨UInt32.le_iff_toNat_le.mp h.1, UInt32.le_iff_toNat_le.mp h.2⟩

section Writing

variable (indent : Option String) (colon : String)

def outcome (style : Style) (level : Nat) (v : Value) : Except Error String :=
  if v.fits then .ok (String.ofList (spell style level v.canonical))
  else .error (.overlong .writing)

theorem integer_eq (n : Int) :
    integer n = if fits (.int n) then .ok (toString n) else .error (.overlong .writing) := by
  rw [integer, integerText, fits]
  by_cases hn : n.natAbs < Nat.pow 10 digitLimit
  · rw [if_pos hn, if_pos (decide_eq_true hn)]
    rfl
  · rw [if_neg hn, if_neg (by simpa using hn)]
    rfl

theorem toList_quote (s : String) : (quote false s).toList = quotedChars s := by
  rw [quote, String.toList_ofList, quotedChars]

theorem quote_eq (s : String) : quote false s = String.ofList (quotedChars s) := rfl

theorem writeItems_eq {style : Style} {level : Nat} {items : List Value}
    (h : ∀ v ∈ items, write style level v = outcome style level v) :
    writeItems style level items =
      if items.all fits then
        .ok ((items.map fun v => spell style level v.canonical).map String.ofList)
      else .error (.overlong .writing) := by
  induction items with
  | nil => rfl
  | cons v items ih =>
    obtain ⟨hv, hitems⟩ := List.forall_mem_cons.mp h
    rw [writeItems, hv, ih hitems, outcome, List.all_cons]
    cases v.fits with
    | false => rfl
    | true => cases items.all fits <;> rfl

theorem members_eq {style : Style} {level : Nat} {fields : List (String × Value)}
    (hascii : style.asciiOnly = false)
    (h : ∀ f ∈ fields, write style level f.2 = outcome style level f.2) :
    members style (fields.map fun f => (.str f.1, write style level f.2)) =
      if fields.all fun f => fits f.2 then
        .ok ((fields.map fun f => member style f.1 (spell style level f.2.canonical)).map
          String.ofList)
      else .error (.overlong .writing) := by
  induction fields with
  | nil => rfl
  | cons f fields ih =>
    obtain ⟨hf, hfields⟩ := List.forall_mem_cons.mp h
    rw [List.map_cons, members, ih hfields, hf, outcome, List.all_cons, keyText]
    cases fits f.2 with
    | false => rfl
    | true =>
      cases fields.all fun f => fits f.2 with
      | false => rfl
      | true =>
        have hmember : quote style.asciiOnly f.1 ++ style.keySeparator ++
            String.ofList (spell style level f.2.canonical) =
            String.ofList (member style f.1 (spell style level f.2.canonical)) := by
          rw [← String.toList_inj, hascii, member]
          simp only [String.toList_append, String.toList_ofList, toList_quote, List.append_assoc]
        exact congrArg (fun part => Except.ok (part :: _)) hmember

variable {indent colon}

theorem write_sequence {level : Nat} {items : List Value}
    (h : ∀ v ∈ items, write (plainStyle indent colon) (level + 1) v =
      outcome (plainStyle indent colon) (level + 1) v) :
    ((writeItems (plainStyle indent colon) (level + 1) items).map fun parts =>
      if parts.isEmpty then "[]" else enclose (plainStyle indent colon) level "[" "]" parts) =
      if items.all fits then
        .ok (String.ofList (spell (plainStyle indent colon) level (.list (items.map canonical))))
      else .error (.overlong .writing) := by
  have hspelled : (items.map canonical).map (spell (plainStyle indent colon) (level + 1)) =
      items.map fun v => spell (plainStyle indent colon) (level + 1) v.canonical :=
    List.map_map
  rw [writeItems_eq h, spell_list, hspelled]
  cases items.all fits with
  | false => rfl
  | true =>
    cases items with
    | nil => rfl
    | cons v items =>
      apply congrArg Except.ok
      dsimp only
      rw [if_neg (by simp), enclose_eq level rfl '[' ']' (by decide) (by decide) (by simp)]

theorem sortEntries_record (fields : List (String × Except Error String)) :
    sortEntries (fields.map fun f => (Value.str f.1, f.2)) =
      .ok ((fields.mergeSort byName).map fun f => (.str f.1, f.2)) := by
  rw [sortEntries, if_pos, mergeSort_textKeyLE]
  rw [List.all_map, List.all_eq_true]
  exact fun _ _ => rfl

theorem writeEntries_record (style : Style) (level : Nat) (fields : List (String × Value)) :
    writeEntries style level (fields.map fun f => (.str f.1, f.2)) =
      (fields.map fun f => (f.1, write style level f.2)).map fun f => (.str f.1, f.2) := by
  induction fields with
  | nil => rfl
  | cons f fields ih => rw [List.map_cons, writeEntries, ih, List.map_cons, List.map_cons]

theorem write_record {level : Nat} {fields : List (String × Value)}
    (h : ∀ f ∈ fields, write (plainStyle indent colon) (level + 1) f.2 =
      outcome (plainStyle indent colon) (level + 1) f.2) :
    write (plainStyle indent colon) level (.record fields) =
      outcome (plainStyle indent colon) level (.record fields) := by
  have hperm := List.mergeSort_perm fields byName
  rw [outcome, fits_record, ← hperm.all_eq, canonical_record, spell_record, List.map_map, record,
    write, writeEntries_record]
  cases fields with
  | nil => rw [List.mergeSort_nil]; rfl
  | cons f fields =>
    have hne : (f :: fields).mergeSort byName ≠ [] := by
      rw [ne_eq, ← List.length_eq_zero_iff, hperm.length_eq]
      exact Nat.succ_ne_zero _
    have hmembers := @members_eq (plainStyle indent colon) _ _ rfl
      fun g hg => h g (hperm.mem_iff.mp hg)
    -- The entries are sorted with their texts in place of their values, and then joined.
    change ((sortEntries _).bind _).map _ = _
    rw [sortEntries_record, ← map_mergeSort_byName, List.map_map]
    change (members _ (((f :: fields).mergeSort byName).map fun g =>
      (.str g.1, write (plainStyle indent colon) (level + 1) g.2))).map _ = _
    rw [hmembers]
    cases ((f :: fields).mergeSort byName).all fun g => fits g.2 with
    | false => rfl
    | true =>
      apply congrArg Except.ok
      rw [enclose_eq level rfl '{' '}' (by decide) (by decide) (by simpa using hne)]
      rfl

theorem write_eq {tuples : Bool} {v : Value} (h : IsJson tuples v) (level : Nat) :
    write (plainStyle indent colon) level v = outcome (plainStyle indent colon) level v := by
  induction h generalizing level with
  | null => rfl
  | bool b => cases b <;> rfl
  | int n =>
    rw [write, integer_eq, outcome, canonical, spell, String.ofList_toList]
    all_goals simp
  | str s => rfl
  | list h ih =>
    rw [write, write_sequence fun v hv => ih v hv (level + 1), outcome, canonical_list, fits,
      fitAll_eq]
  | tuple ht h ih =>
    rw [write, write_sequence fun v hv => ih v hv (level + 1), outcome, canonical_tuple, fits,
      fitAll_eq]
  | record hdistinct h ih => exact write_record fun f hf => ih f hf (level + 1)

end Writing

section Dumping

variable {capacity : Nat} {v : Value} {n : Int}

def indentOptions (n : Int) : Entries := [(.str "indent", .int n)]

theorem checkOptions_indent : checkOptions none (indentOptions n) = .ok () := rfl

theorem separators_indent :
    separatorsFor ((indentOptions n).find? "separators") (isCompact none (indentOptions n))
      (isIndented (indentOptions n)) = .ok (looseSeparators true) := rfl

theorem indent_indent : ((indentOptions n).find? "indent").getD .null = .int n := rfl

/-- A count that can be an indentation where there is room for `capacity` blanks. -/
def Indentable (capacity : Nat) (n : Int) : Prop := isIndex n ∧ n.toNat ≤ capacity

instance (n : Int) : Decidable (Indentable capacity n) := inferInstanceAs (Decidable (_ ∧ _))

theorem readIndent_of_indentable (h : Indentable capacity n) :
    readIndent capacity (.int n) = .ok (some (String.ofList (List.replicate n.toNat ' '))) := by
  rw [readIndent, h.1, if_neg (by decide), if_neg (Nat.not_lt.mpr h.2)]

theorem readIndent_of_not_index (capacity : Nat) (h : isIndex n = false) :
    readIndent capacity (.int n) = .error .indentOverflow := by
  rw [readIndent, h]
  rfl

theorem dump_default (capacity : Nat) (v : Value) :
    dump capacity v none [] = write compactStyle 0 v := by
  cases v <;> rfl

theorem dump_of_readIndent {indent : String}
    (h : readIndent capacity (.int n) = .ok (some indent)) :
    dump capacity v none (indentOptions n) = write (indentedStyle indent) 0 v := by
  unfold dump
  dsimp only
  rw [checkOptions_indent]
  dsimp only
  rw [separators_indent]
  dsimp only
  rw [indent_indent, h]
  cases v <;> rfl

/-- The indentation is not looked at if there is only a text. -/
theorem dump_str (capacity : Nat) (s : String) :
    dump capacity (.str s) none (indentOptions n) = .ok (quote false s) := by
  unfold dump
  dsimp only
  rw [checkOptions_indent]
  rfl

theorem dump_of_readIndent_error {e : Error} (hv : v.str? = none)
    (h : readIndent capacity (.int n) = .error e) :
    dump capacity v none (indentOptions n) = .error e := by
  unfold dump
  dsimp only
  rw [checkOptions_indent]
  dsimp only
  rw [separators_indent]
  dsimp only
  rw [indent_indent, h]
  cases v with
  | str s => cases hv
  | _ => rfl

end Dumping

end Json

end TexHtml
