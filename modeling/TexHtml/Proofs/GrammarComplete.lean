import TexHtml.Proofs.Grammar

namespace TexHtml

namespace Parsed

def prepend (nodes : List Node) (r : Parsed (List Node)) : Parsed (List Node) :=
  r.andThen fun others us => .ok (nodes ++ others) us

theorem prepend_nil (r : Parsed (List Node)) : r.prepend [] = r := by
  cases r with
  | ok value us => rfl
  | stopped stop => rfl

theorem prepend_prepend (nodes others : List Node) (r : Parsed (List Node)) :
    (r.prepend others).prepend nodes = r.prepend (nodes ++ others) := by
  cases r with
  | ok value us => simp [prepend]
  | stopped stop => rfl

end Parsed

namespace Grammar

section Complete

variable {limit : Int}

theorem elements_skip {depth : Int} {inside : Option Delimiter} {t : Token} (ts : List Token)
    (hc : t.kind ≠ .command) (ho : ∀ d, t.kind ≠ .opener d) (he : t.kind ≠ .endOfInput)
    (hd : ∀ d, t.kind = .closer d → inside ≠ some d) :
    Reading.elements limit inside depth (t :: ts) =
      (Reading.elements limit inside depth ts).prepend t.leaf?.toList := by
  rw [Reading.elements_cons _ _ _ _ _ he (closes_eq_false hd), Reading.element_leaf _ _ _ _ hc ho,
    Parsed.ok_andThen, Parsed.prepend]

theorem elements_leaf {depth : Int} {inside : Option Delimiter} {t : Token} (ts : List Token)
    {node : Node} (ht : t.leaf? = some node) :
    Reading.elements limit inside depth (t :: ts) =
      (Reading.elements limit inside depth ts).prepend [node] := by
  rw [elements_skip ts (fun hk => by simp [Token.leaf?, hk] at ht)
    (fun _ hk => by simp [Token.leaf?, hk] at ht) (fun hk => by simp [Token.leaf?, hk] at ht)
    (fun _ hk => by simp [Token.leaf?, hk] at ht), ht]
  rfl

theorem resume_leaf {depth : Int} {inside : Option Delimiter} {t : Token} {ts rest : List Token}
    {node : Node} {nodes : List Node} (ht : t.leaf? = some node)
    (h : Reading.elements limit inside depth ts =
      (Reading.elements limit inside depth rest).prepend nodes) :
    Reading.elements limit inside depth (t :: ts) =
      (Reading.elements limit inside depth rest).prepend (node :: nodes) := by
  rw [elements_leaf ts ht, h, Parsed.prepend_prepend, List.singleton_append]

theorem elements_stray {depth : Int} {inside : Option Delimiter} {t : Token} (ts : List Token)
    {d : Delimiter} (ht : t.kind = .closer d) (hd : inside ≠ some d) :
    Reading.elements limit inside depth (t :: ts) = Reading.elements limit inside depth ts := by
  have hl : t.leaf? = none := by simp only [Token.leaf?, ht]
  rw [elements_skip ts (by simp [ht]) (by simp [ht]) (by simp [ht]) (by simpa [ht] using hd), hl]
  exact Parsed.prepend_nil _

theorem groups_complete_nil {depth : Int} {d : Delimiter} {rest : List Token}
    (h : ¬ OpensWith d rest) : Reading.groups limit d depth rest = .ok [] rest := by
  cases rest with
  | nil => rfl
  | cons t rest =>
    apply Reading.groups_stop
    intro hk
    exact h ⟨t, rfl, hk⟩

theorem elements_of_ends {depth : Int} {inside : Option Delimiter} {rest : List Token}
    (h : Reading.Ends inside rest) : Reading.elements limit inside depth rest = .ok [] rest := by
  cases rest with
  | nil => rfl
  | cons t rest => exact Reading.elements_stop _ _ _ _ _ h

mutual

/-- Behind derived tokens, reading goes on with whatever follows, unless a command before it could
take that for an argument. -/
theorem Elements.resume {depth : Int} {inside : Option Delimiter} {ts rest : List Token}
    {nodes : List Node} {k : Nat} (h : Elements inside ts nodes k) (hf : Fits limit depth k)
    (hr : ∀ d, ¬ OpensWith d rest) :
    Reading.elements limit inside depth (ts ++ rest) =
      (Reading.elements limit inside depth rest).prepend nodes := by
  match h with
  | .nil => exact (Parsed.prepend_nil _).symm
  | .text ht tail => exact resume_leaf (by simp only [Token.leaf?, ht]) (tail.resume hf hr)
  | .math ht tail => exact resume_leaf (by simp only [Token.leaf?, ht]) (tail.resume hf hr)
  | .newline ht tail => exact resume_leaf (by simp only [Token.leaf?, ht]) (tail.resume hf hr)
  | .stray ht hd tail => rw [List.cons_append, elements_stray _ ht hd, tail.resume hf hr]
  | @Elements.group _ d _ ts _ _ _ _ first tail =>
    obtain ⟨hf1, hf2⟩ := fits_max.mp hf
    obtain ⟨o, us, rfl, ho, hg⟩ := first.complete hf1 (ts ++ rest)
    rw [List.append_assoc, List.cons_append, Reading.elements_cons _ _ _ _ _ (by simp [ho])
      (closes_eq_false (by simp [ho])), Reading.element_opener _ _ _ _ _ ho, hg]
    simp only [Parsed.ok_andThen]
    rw [tail.resume hf2 hr]
    exact Parsed.prepend_prepend _ _ _
  | .command ht hos ho hrs hq ha tail =>
    obtain ⟨hf1, hf'⟩ := fits_max.mp hf
    obtain ⟨hf2, hf3⟩ := fits_max.mp hf'
    have h1 := hos.complete hf1 (not_opensWith_append ho (hr .bracket))
    have h2 := hrs.complete hf2 (not_opensWith_append hq (hr .brace))
    rw [List.append_assoc] at h1
    rw [List.cons_append, List.append_assoc, List.append_assoc,
      Reading.elements_cons _ _ _ _ _ (by simp [ht]) (closes_eq_false (by simp [ht])),
      Reading.element_command _ _ _ _ ht, Reading.command_eq, h1]
    simp only [Parsed.ok_andThen]
    rw [h2]
    simp only [Parsed.ok_andThen]
    rw [tail.resume hf3 hr, arguments_iff.mp ha]
    exact Parsed.prepend_prepend _ _ _

theorem Group.complete {depth : Int} {d : Delimiter} {gs : List Token} {children : List Node}
    {k : Nat} (h : Group d gs children k) (hf : Fits limit depth k) (rest : List Token) :
    ∃ o us, gs = o :: us ∧ o.kind = .opener d ∧
      Reading.group limit d depth o (us ++ rest) = .ok children rest := by
  match h with
  | @Group.enclosed _ o c ts _ _ ho body hc =>
    obtain ⟨hl, hf'⟩ := fits_succ.mp hf
    have hends : Reading.Ends (some d) (c :: rest) := .inr (closes_iff.mpr ⟨d, hc, rfl⟩)
    have hb := body.resume hf' fun d => not_opensWith_of_ends d hends
    rw [elements_of_ends hends] at hb
    refine ⟨o, ts ++ [c], rfl, ho, ?_⟩
    rw [Reading.group_eq _ _ _ _ _ hl, List.append_assoc, List.singleton_append, hb, Parsed.prepend,
      Parsed.ok_andThen, Parsed.ok_andThen, Parse.endGroup, if_pos hc, List.append_nil]

theorem Groups.complete {depth : Int} {d : Delimiter} {ts rest : List Token}
    {lists : List (List Node)} {k : Nat} (h : Groups d ts lists k) (hf : Fits limit depth k)
    (hr : ¬ OpensWith d rest) : Reading.groups limit d depth (ts ++ rest) = .ok lists rest := by
  match h with
  | .nil => exact groups_complete_nil hr
  | @Groups.cons _ _ ts _ _ _ _ first tail =>
    obtain ⟨hf1, hf2⟩ := fits_max.mp hf
    obtain ⟨o, us, rfl, ho, hg⟩ := first.complete hf1 (ts ++ rest)
    rw [List.append_assoc, List.cons_append, Reading.groups_cons _ _ _ _ _ ho, hg]
    simp only [Parsed.ok_andThen]
    rw [tail.complete hf2 hr]
    rfl

end

theorem Elements.complete {depth : Int} {inside : Option Delimiter} {ts rest : List Token}
    {nodes : List Node} {k : Nat}
    (h : Elements inside ts nodes k) (hf : Fits limit depth k) (hr : Reading.Ends inside rest) :
    Reading.elements limit inside depth (ts ++ rest) = .ok nodes rest := by
  rw [h.resume hf fun d => not_opensWith_of_ends d hr, elements_of_ends hr, Parsed.prepend,
    Parsed.ok_andThen, List.append_nil]

end Complete

end Grammar

end TexHtml
