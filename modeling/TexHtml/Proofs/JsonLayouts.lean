import TexHtml.Proofs.JsonText

namespace TexHtml

namespace Value

mutual

theorem Rearranged.canonical_eq {tuples : Bool} {x y : Value} :
    Rearranged x y → IsJson tuples x → x.canonical = y.canonical
  | .same _, _ => rfl
  | .list h, .list hx => by rw [canonical_list, canonical_list, h.canonical_eq hx]
  | .tuple h, .tuple _ hx => by rw [canonical_tuple, canonical_tuple, h.canonical_eq hx]
  | .record h hperm, hx => by
    obtain ⟨hdistinct, hfields⟩ := hx.fields
    have hnames := h.names_eq.symm ▸ hdistinct
    rw [canonical_record, canonical_record, map_mergeSort_byName, h.canonical_eq hfields,
      ← map_mergeSort_byName, mergeSort_eq_of_perm hperm hnames]

theorem RearrangedItems.canonical_eq {tuples : Bool} {items items' : List Value} :
    RearrangedItems items items' → (∀ v ∈ items, IsJson tuples v) →
      items.map canonical = items'.map canonical
  | .nil, _ => rfl
  | .cons h hrest, hitems => by
    obtain ⟨hv, hitems⟩ := List.forall_mem_cons.mp hitems
    rw [List.map_cons, List.map_cons, h.canonical_eq hv, hrest.canonical_eq hitems]

theorem RearrangedFields.canonical_eq {tuples : Bool} {fields fields' : List (String × Value)} :
    RearrangedFields fields fields' → (∀ f ∈ fields, IsJson tuples f.2) →
      fields.map (fun f => (f.1, f.2.canonical)) = fields'.map fun f => (f.1, f.2.canonical)
  | .nil, _ => rfl
  | .cons h hrest, hfields => by
    obtain ⟨hv, hfields⟩ := List.forall_mem_cons.mp hfields
    rw [List.map_cons, List.map_cons, h.canonical_eq hv, hrest.canonical_eq hfields]

end

mutual

theorem Rearranged.fits_eq {x y : Value} : Rearranged x y → x.fits = y.fits
  | .same _ => rfl
  | .list h => by rw [fits, fits, fitAll_eq, fitAll_eq, h.fits_eq]
  | .tuple h => by rw [fits, fits, fitAll_eq, fitAll_eq, h.fits_eq]
  | .record h hperm => by rw [fits_record, fits_record, h.fits_eq, hperm.all_eq]

theorem RearrangedItems.fits_eq {items items' : List Value} :
    RearrangedItems items items' → items.all fits = items'.all fits
  | .nil => rfl
  | .cons h hrest => by rw [List.all_cons, List.all_cons, h.fits_eq, hrest.fits_eq]

theorem RearrangedFields.fits_eq {fields fields' : List (String × Value)} :
    RearrangedFields fields fields' →
      (fields.all fun f => fits f.2) = fields'.all fun f => fits f.2
  | .nil => rfl
  | .cons h hrest => by rw [List.all_cons, List.all_cons, h.fits_eq, hrest.fits_eq]

end

mutual

theorem Rearranged.isJson {tuples : Bool} {x y : Value} :
    Rearranged x y → IsJson tuples x → IsJson tuples y
  | .same _, hx => hx
  | .list h, .list hx => .list (h.isJson hx)
  | .tuple h, .tuple ht hx => .tuple ht (h.isJson hx)
  | .record h hperm, hx => by
    obtain ⟨hdistinct, hfields⟩ := hx.fields
    apply IsJson.record
    · rw [← (hperm.map Prod.fst).nodup_iff, h.names_eq]
      exact hdistinct
    · exact fun f hf => h.isJson hfields f (hperm.mem_iff.mpr hf)

theorem RearrangedItems.isJson {tuples : Bool} {items items' : List Value} :
    RearrangedItems items items' → (∀ v ∈ items, IsJson tuples v) → ∀ v ∈ items', IsJson tuples v
  | .nil, hitems => hitems
  | .cons h hrest, hitems => by
    obtain ⟨hv, hitems⟩ := List.forall_mem_cons.mp hitems
    exact List.forall_mem_cons.mpr ⟨h.isJson hv, hrest.isJson hitems⟩

theorem RearrangedFields.isJson {tuples : Bool} {fields fields' : List (String × Value)} :
    RearrangedFields fields fields' → (∀ f ∈ fields, IsJson tuples f.2) →
      ∀ f ∈ fields', IsJson tuples f.2
  | .nil, hfields => hfields
  | .cons h hrest, hfields => by
    obtain ⟨hv, hfields⟩ := List.forall_mem_cons.mp hfields
    exact List.forall_mem_cons.mpr ⟨h.isJson hv, hrest.isJson hfields⟩

end

end Value

namespace Json

open Value

inductive Place where
  | outside
  | inside
  | escaped

def squeezeFrom : Place → List Char → List Char
  | _, [] => []
  | .outside, c :: rest =>
    if c = '"' then c :: squeezeFrom .inside rest
    else if Text.isBlank c then squeezeFrom .outside rest
    else c :: squeezeFrom .outside rest
  | .inside, c :: rest =>
    if c = '"' then c :: squeezeFrom .outside rest
    else if c = '\\' then c :: squeezeFrom .escaped rest
    else c :: squeezeFrom .inside rest
  | .escaped, c :: rest => c :: squeezeFrom .inside rest

def squeeze (text : String) : String := String.ofList (squeezeFrom .outside text.toList)

def isMark (c : Char) : Bool := c ≠ '"' && !Text.isBlank c

/-- Between two places outside of string literals, the first text becomes the second. -/
def Squeezes (s t : List Char) : Prop :=
  ∀ rest, squeezeFrom .outside (s ++ rest) = t ++ squeezeFrom .outside rest

namespace Squeezes

theorem nil : Squeezes [] [] := fun _ => rfl

theorem append {s t s' t' : List Char} (h : Squeezes s t) (h' : Squeezes s' t') :
    Squeezes (s ++ s') (t ++ t') := by
  intro rest
  rw [List.append_assoc, h, h', List.append_assoc]

theorem blank {c : Char} (h : Text.isBlank c) {s t : List Char} (hs : Squeezes s t) :
    Squeezes (c :: s) t := by
  intro rest
  have hquote : c ≠ '"' := by
    rintro rfl
    cases h
  rw [List.cons_append, squeezeFrom, if_neg hquote, if_pos h, hs]

theorem mark {c : Char} (h : isMark c) {s t : List Char} (hs : Squeezes s t) :
    Squeezes (c :: s) (c :: t) := by
  intro rest
  simp only [isMark, Bool.and_eq_true, decide_eq_true_eq, Bool.not_eq_true'] at h
  rw [List.cons_append, squeezeFrom, if_neg h.1, h.2, if_neg Bool.false_ne_true, hs,
    List.cons_append]

theorem blanks {s : List Char} (h : s.all Text.isBlank) : Squeezes s [] := by
  induction s with
  | nil => exact nil
  | cons c s ih =>
    rw [List.all_cons, Bool.and_eq_true] at h
    exact blank h.1 (ih h.2)

theorem marks {s : List Char} (h : s.all isMark) : Squeezes s s := by
  induction s with
  | nil => exact nil
  | cons c s ih =>
    rw [List.all_cons, Bool.and_eq_true] at h
    exact mark h.1 (ih h.2)

end Squeezes

theorem squeezeFrom_inside {s : List Char} (h : ∀ c ∈ s, c ≠ '"' ∧ c ≠ '\\') (rest : List Char) :
    squeezeFrom .inside (s ++ rest) = s ++ squeezeFrom .inside rest := by
  induction s with
  | nil => rfl
  | cons c s ih =>
    obtain ⟨⟨hquote, hslash⟩, hs⟩ := List.forall_mem_cons.mp h
    rw [List.cons_append, squeezeFrom, if_neg hquote, if_neg hslash, ih hs, List.cons_append]

theorem squeezeFrom_escape (letter : Char) (rest : List Char) :
    squeezeFrom .inside ('\\' :: letter :: rest) = '\\' :: letter :: squeezeFrom .inside rest := by
  rw [squeezeFrom, if_neg (by decide), if_pos rfl, squeezeFrom]

theorem squeezeFrom_escapeChar (c : Char) (rest : List Char) :
    squeezeFrom .inside (escapeChar false c ++ rest) =
      escapeChar false c ++ squeezeFrom .inside rest := by
  rcases escapeChar_cases c with ⟨letter, -, heq⟩ | ⟨hcontrol, heq⟩ | ⟨hquote, hslash, -, heq⟩
  · rw [heq]
    exact squeezeFrom_escape letter rest
  · have hdigits : ∀ n < 32, (Text.hex 4 n).all fun d => d ≠ '"' && d ≠ '\\' := by decide
    have hplain : ∀ d ∈ Text.hex 4 c.toNat, d ≠ '"' ∧ d ≠ '\\' := by
      simpa using hdigits c.toNat hcontrol
    rw [heq, unitEscape, List.cons_append, List.cons_append, squeezeFrom_escape,
      squeezeFrom_inside hplain, List.cons_append, List.cons_append]
  · rw [heq]
    exact squeezeFrom_inside (List.forall_mem_singleton.mpr ⟨hquote, hslash⟩) rest

theorem squeezes_quotedChars (s : String) : Squeezes (quotedChars s) (quotedChars s) := by
  intro rest
  have hinside (cs : List Char) :
      squeezeFrom .inside (cs.flatMap (escapeChar false) ++ '"' :: rest) =
        cs.flatMap (escapeChar false) ++ '"' :: squeezeFrom .outside rest := by
    induction cs with
    | nil => rw [List.flatMap_nil, List.nil_append, squeezeFrom, if_pos rfl, List.nil_append]
    | cons c cs ih =>
      rw [List.flatMap_cons, List.append_assoc, squeezeFrom_escapeChar, ih, List.append_assoc]
  rw [quotedChars, List.cons_append, List.append_assoc, squeezeFrom, if_pos rfl,
    List.singleton_append, hinside, List.cons_append, List.append_assoc]
  rfl

theorem isMark_digit {c : Char} (h : c.isDigit) : isMark c := by
  obtain ⟨hlow, hhigh⟩ := toNat_of_isDigit h
  have hquote : c ≠ '"' := by
    rintro rfl
    exact absurd hlow (by decide)
  have hblank : Text.isBlank c = false := by
    simp only [Text.isBlank, Text.inRanges, Text.blankRanges, Bool.and_eq_false_iff,
      Bool.or_eq_false_iff, decide_eq_false_iff_not]
    omega
  simp [isMark, hquote, hblank]

theorem squeezes_toString (n : Int) : Squeezes (toString n).toList (toString n).toList := by
  have hdigits : (Nat.toDigits 10 n.natAbs).all isMark := by
    rw [List.all_eq_true]
    intro c hc
    exact isMark_digit (Nat.isDigit_of_mem_toDigits (by decide) (by decide) hc)
  rw [toList_toString]
  split
  · exact .mark (by decide) (.marks hdigits)
  · exact .marks hdigits

section Styles

variable {indent : String} (hindent : indent.toList.all Text.isBlank)

include hindent

theorem squeezes_newline (level : Nat) : Squeezes (newline (indentedStyle indent) level) [] :=
  .blanks (all_newline rfl hindent level)

theorem squeezes_bracketed {α : Type} (level level' : Nat) {opening closing : Char}
    (hopening : isMark opening) (hclosing : isMark closing) {f g : α → List Char} {xs : List α}
    (h : ∀ x ∈ xs, Squeezes (f x) (g x)) :
    Squeezes (bracketed (indentedStyle indent) level opening closing (xs.map f))
      (bracketed compactStyle level' opening closing (xs.map g)) := by
  cases xs with
  | nil => exact .mark hopening (.mark hclosing .nil)
  | cons x xs =>
    obtain ⟨hx, hxs⟩ := List.forall_mem_cons.mp h
    have hothers : Squeezes
        ((xs.map f).flatMap fun q => ',' :: (newline (indentedStyle indent) (level + 1) ++ q))
        ((xs.map g).flatMap fun q => ',' :: (newline compactStyle (level' + 1) ++ q)) := by
      induction xs with
      | nil => exact .nil
      | cons y ys ih =>
        obtain ⟨hy, hys⟩ := List.forall_mem_cons.mp hxs
        have hrest := ih (List.forall_mem_cons.mpr ⟨hx, hys⟩) hys
        exact .append (.mark (by decide) (.append (squeezes_newline hindent _) hy)) hrest
    exact .mark hopening (.append (squeezes_newline hindent _) (.append hx (.append hothers
      (.append (squeezes_newline hindent _) (.mark hclosing .nil)))))

theorem squeezes_spell {v : Value} (h : IsJson false v) (level level' : Nat) :
    Squeezes (spell (indentedStyle indent) level v) (spell compactStyle level' v) := by
  induction h generalizing level level' with
  | null => exact @Squeezes.marks ['n', 'u', 'l', 'l'] (by decide)
  | bool b =>
    cases b with
    | false => exact @Squeezes.marks ['f', 'a', 'l', 's', 'e'] (by decide)
    | true => exact @Squeezes.marks ['t', 'r', 'u', 'e'] (by decide)
  | int n => exact squeezes_toString n
  | str s => exact squeezes_quotedChars s
  | list h ih =>
    -- The parts between brackets are squeezed one by one, each at its own level.
    rw [spell_list, spell_list]
    exact squeezes_bracketed hindent level level' (by decide) (by decide)
      fun v hv => ih v hv (level + 1) (level' + 1)
  | tuple ht => cases ht
  | record hdistinct h ih =>
    rw [spell_record, spell_record]
    apply squeezes_bracketed hindent level level' (by decide) (by decide)
    intro f hf
    have hcolon : Squeezes ": ".toList ":".toList := .mark (by decide) (.blanks (by decide))
    exact .append (squeezes_quotedChars f.1) (.append hcolon (ih f hf (level + 1) (level' + 1)))

theorem squeeze_outcome {tuples : Bool} {v : Value} (h : IsJson tuples v) :
    (outcome (indentedStyle indent) 0 v).map squeeze = outcome compactStyle 0 v := by
  rw [outcome, outcome]
  cases v.fits with
  | false => rfl
  | true =>
    have hsqueeze := squeezes_spell hindent (isJson_canonical h) 0 0 []
    rw [List.append_nil, squeezeFrom, List.append_nil] at hsqueeze
    apply congrArg Except.ok
    rw [squeeze, String.toList_ofList, hsqueeze]

end Styles

theorem squeeze_dump {tuples : Bool} {x : Value} (hx : IsJson tuples x) {capacity : Nat} {n : Int}
    (hn : Indentable capacity n) :
    (dump capacity x none (indentOptions n)).map squeeze = dump capacity x none [] := by
  have hblanks : (String.ofList (List.replicate n.toNat ' ')).toList.all Text.isBlank := by
    rw [String.toList_ofList, List.all_replicate]
    simp [show Text.isBlank ' ' = true from rfl]
  rw [dump_of_readIndent (readIndent_of_indentable hn), dump_default]
  exact (congrArg _ (write_eq hx 0)).trans ((squeeze_outcome hblanks hx).trans (write_eq hx 0).symm)

theorem squeeze_dump_str (capacity : Nat) (s : String) (n : Int) :
    (dump capacity (.str s) none (indentOptions n)).map squeeze =
      dump capacity (.str s) none [] := by
  have hsqueeze := squeezes_quotedChars s []
  rw [List.append_nil, squeezeFrom, List.append_nil] at hsqueeze
  rw [dump_str, dump_default, quote_eq]
  apply congrArg Except.ok
  rw [squeeze, String.toList_ofList, hsqueeze]
  rfl

theorem dump_rearranged {tuples : Bool} {x y : Value} (hx : IsJson tuples x)
    (h : Rearranged x y) (capacity : Nat) : dump capacity x none [] = dump capacity y none [] := by
  rw [dump_default, dump_default]
  refine (write_eq hx 0).trans (Eq.trans ?_ (write_eq (h.isJson hx) 0).symm)
  rw [outcome, outcome, h.fits_eq, h.canonical_eq hx]

/-- Without the blanks outside of its string literals, indented text is compact text, whatever order
the entries of tables have. This holds for every indentation that there is room for, however much
that is, and of a text alone for any. A count that is no index is an error, however much room there
is. There is a text exactly if no number in the value has too many digits. -/
theorem squeeze_indented_dump {x y : Value} (hx : IsJson true x) (h : Rearranged x y)
    (capacity : Nat) (n : Int) :
    (Indentable capacity n ∨ x.str?.isSome →
      (dump capacity x none (indentOptions n)).map squeeze = dump capacity y none []) ∧
    (isIndex n = false → x.str? = none →
      dump capacity x none (indentOptions n) = .error .indentOverflow) ∧
    (x.fits → ∃ text, dump capacity y none [] = .ok text) ∧
    (x.fits = false → dump capacity y none [] = .error (.overlong .writing)) := by
  have hcompact : dump capacity y none [] = outcome compactStyle 0 x := by
    rw [← dump_rearranged hx h, dump_default]
    exact write_eq hx 0
  refine ⟨fun hn => ?_, fun hn hstr => ?_, fun hfits => ?_, fun hfits => ?_⟩
  · rw [← dump_rearranged hx h]
    by_cases hindent : Indentable capacity n
    · exact squeeze_dump hx hindent
    · obtain ⟨s, hs⟩ := Option.isSome_iff_exists.mp (hn.resolve_left hindent)
      cases x with
      | str t => exact squeeze_dump_str capacity t n
      | _ => cases hs
  · exact dump_of_readIndent_error hstr (readIndent_of_not_index capacity hn)
  · exact ⟨_, hcompact.trans (if_pos hfits)⟩
  · rw [hcompact, outcome, hfits]
    rfl

theorem squeeze_indented_dump_mixed :
    let pair := Value.tuple [.int (-1), .str " \" "]
    (dump 3 (.record [("b", pair), ("a", .list [])]) none (indentOptions 3)).map squeeze =
        dump 3 (.record [("a", .list []), ("b", pair)]) none [] ∧
      ∃ text, dump 3 (.record [("a", .list []), ("b", pair)]) none [] = .ok text := by
  intro pair
  have hpair : IsJson true pair := by
    apply IsJson.tuple rfl
    rintro v (- | ⟨-, - | ⟨-, ⟨⟩⟩⟩)
    · exact .int _
    · exact .str _
  have hx : IsJson true (.record [("b", pair), ("a", .list [])]) := by
    apply IsJson.record (by decide)
    rintro f (- | ⟨-, - | ⟨-, ⟨⟩⟩⟩)
    · exact hpair
    · exact .list (fun _ h => nomatch h)
  have h : Rearranged (.record [("b", pair), ("a", .list [])])
      (.record [("a", .list []), ("b", pair)]) :=
    .record (.cons (.same _) (.cons (.same _) .nil)) (.swap _ _ _)
  obtain ⟨hsqueeze, -, hfits, -⟩ := squeeze_indented_dump hx h 3 3
  exact ⟨hsqueeze (.inl (by decide)), hfits (by decide +kernel)⟩

/-- A number of blanks that is no index cannot be an indentation, whatever there is room for and
though there is a compact text. -/
theorem dump_indent_beyond_index :
    IsJson true (.int 1) ∧ Rearranged (.int 1) (.int 1) ∧ ∀ capacity,
      dump capacity (.int 1) none (indentOptions 9223372036854775808) = .error .indentOverflow ∧
      dump capacity (.int 1) none [] = .ok "1" := by
  have hone : IsJson true (.int 1) := .int 1
  refine ⟨hone, .same _, fun capacity => ⟨?_, ?_⟩⟩
  · exact dump_of_readIndent_error rfl (readIndent_of_not_index capacity (by decide))
  · have hfits : (Value.int 1).fits = true := by decide +kernel
    rw [dump_default]
    exact (write_eq hone 0).trans (if_pos hfits)

end Json

end TexHtml
