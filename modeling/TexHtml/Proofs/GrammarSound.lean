import TexHtml.Proofs.GrammarComplete

namespace TexHtml

namespace Grammar

structure Sound (limit : Int) (ts : List Token) : Prop where
  elements {inside : Option Delimiter} {depth : Int} {nodes : List Node} {us : List Token}
    (h : Reading.elements limit inside depth ts = .ok nodes us) :
    ∃ used k, ts = used ++ us ∧ Elements inside used nodes k ∧ Fits limit depth k
  group {d : Delimiter} {depth : Int} {t : Token} {nodes : List Node} {us : List Token}
    (ht : t.kind = .opener d) (h : Reading.group limit d depth t ts = .ok nodes us) :
    ∃ used k, t :: ts = used ++ us ∧ Group d used nodes k ∧ Fits limit depth k
  groups {d : Delimiter} {depth : Int} {lists : List (List Node)} {us : List Token}
    (h : Reading.groups limit d depth ts = .ok lists us) :
    ∃ used k, ts = used ++ us ∧ Groups d used lists k ∧ Fits limit depth k ∧ ¬ OpensWith d us

section Sound

variable {limit depth : Int} {inside : Option Delimiter} {d : Delimiter} {t : Token}
  {ts us : List Token}

theorem command_sound (ih : ∀ us, us.length ≤ ts.length → Sound limit us) {name : String}
    {node : Node} (h : Reading.command limit depth name ts = .ok node us) :
    ∃ os rs optional required i j, ts = os ++ (rs ++ us) ∧
      node = .command name (required.map packArgument) optional.flatten ∧
      (Groups .bracket os optional i ∧ Fits limit depth i ∧ ¬ OpensWith .bracket (rs ++ us)) ∧
      (Groups .brace rs required j ∧ Fits limit depth j ∧ ¬ OpensWith .brace us) := by
  rw [Reading.command_eq] at h
  obtain ⟨optional, vs, ho, h⟩ := Parsed.andThen_eq_ok.mp h
  obtain ⟨required, ws, hr, h⟩ := Parsed.andThen_eq_ok.mp h
  cases h
  have hle := Parse.rest_length_le (Reading.groups_rest_suffix limit depth .bracket ts) ho
  obtain ⟨os, i, rfl, hos, hi, hb⟩ := (ih ts (Nat.le_refl _)).groups ho
  obtain ⟨rs, j, rfl, hrs, hj, hc⟩ := (ih vs hle).groups hr
  exact ⟨os, rs, optional, required, i, j, rfl, rfl, ⟨hos, hi, hb⟩, hrs, hj, hc⟩

theorem elements_sound (ih : ∀ us, us.length < ts.length → Sound limit us) {nodes : List Node}
    (h : Reading.elements limit inside depth ts = .ok nodes us) :
    ∃ used k, ts = used ++ us ∧ Elements inside used nodes k ∧ Fits limit depth k := by
  cases ts with
  | nil =>
    cases h
    exact ⟨[], 0, rfl, .nil, Fits.zero limit depth⟩
  | cons t ts =>
    by_cases hs : t.kind = .endOfInput ∨ t.kind.closes inside
    · rw [Reading.elements_stop _ _ _ _ _ hs] at h
      cases h
      exact ⟨[], 0, rfl, .nil, Fits.zero limit depth⟩
    simp only [not_or, Bool.not_eq_true] at hs
    have ih' : ∀ us : List Token, us.length ≤ ts.length → Sound limit us :=
      fun us hu => ih us (Nat.lt_succ_of_le hu)
    rw [Reading.elements_cons _ _ _ _ _ hs.1 hs.2] at h
    obtain ⟨found, vs, he, h⟩ := Parsed.andThen_eq_ok.mp h
    obtain ⟨others, ws, hn, h⟩ := Parsed.andThen_eq_ok.mp h
    cases h
    have hle := Parse.rest_length_le (Reading.element_rest_suffix limit depth t ts) he
    obtain ⟨used, k, rfl, hused, hk⟩ := (ih' vs hle).elements hn
    cases ht : t.kind with
    | command =>
      rw [Reading.element_command _ _ _ _ ht] at he
      obtain ⟨node, vs', hc, he⟩ := Parsed.andThen_eq_ok.mp he
      cases he
      obtain ⟨os, rs, optional, required, i, j, rfl, rfl, ⟨hos, hi, hb⟩, hrs, hj, hc⟩ :=
        command_sound ih' hc
      rw [← List.append_assoc rs] at hb
      refine ⟨t :: (os ++ (rs ++ used)), max i (max j k), by simp, ?_,
        fits_max.mpr ⟨hi, fits_max.mpr ⟨hj, hk⟩⟩⟩
      exact .command ht hos (fun ho => hb (ho.append us)) hrs (fun ho => hc (ho.append us))
        (arguments_iff.mpr rfl) hused
    | opener d =>
      rw [Reading.element_opener _ _ _ _ _ ht] at he
      obtain ⟨children, vs', hg, he⟩ := Parsed.andThen_eq_ok.mp he
      cases he
      obtain ⟨gs, j, hgs, hgroup, hj⟩ := (ih' ts (Nat.le_refl _)).group ht hg
      exact ⟨gs ++ used, max j k, by rw [hgs, List.append_assoc], .group hgroup hused,
        fits_max.mpr ⟨hj, hk⟩⟩
    | text =>
      rw [Reading.element_leaf _ _ _ _ (by simp [ht]) (by simp [ht]), Token.leaf?, ht] at he
      cases he
      exact ⟨t :: used, k, rfl, .text ht hused, hk⟩
    | math display =>
      rw [Reading.element_leaf _ _ _ _ (by simp [ht]) (by simp [ht]), Token.leaf?, ht] at he
      cases he
      exact ⟨t :: used, k, rfl, .math ht hused, hk⟩
    | newline =>
      rw [Reading.element_leaf _ _ _ _ (by simp [ht]) (by simp [ht]), Token.leaf?, ht] at he
      cases he
      exact ⟨t :: used, k, rfl, .newline ht hused, hk⟩
    | closer d =>
      rw [Reading.element_leaf _ _ _ _ (by simp [ht]) (by simp [ht]), Token.leaf?, ht] at he
      cases he
      have hd : inside ≠ some d := by
        rintro rfl
        simp [TokenKind.closes, ht] at hs
      exact ⟨t :: used, k, rfl, .stray ht hd hused, hk⟩
    | endOfInput => exact absurd ht hs.1

theorem group_sound
    (he : ∀ nodes us, Reading.elements limit (some d) (depth + 1) ts = .ok nodes us →
      ∃ used k, ts = used ++ us ∧ Elements (some d) used nodes k ∧ Fits limit (depth + 1) k)
    {nodes : List Node} (ht : t.kind = .opener d)
    (h : Reading.group limit d depth t ts = .ok nodes us) :
    ∃ used k, t :: ts = used ++ us ∧ Group d used nodes k ∧ Fits limit depth k := by
  by_cases hl : limit ≤ depth
  · rw [Reading.group_tooDeep _ _ _ _ _ hl] at h
    cases h
  rw [Reading.group_eq _ _ _ _ _ (by omega)] at h
  obtain ⟨children, vs, hc, hend⟩ := Parsed.andThen_eq_ok.mp h
  obtain ⟨used, k, rfl, hused, hk⟩ := he children vs hc
  cases vs with
  | nil => cases hend
  | cons c vs =>
    rw [Parse.endGroup] at hend
    split at hend
    · rename_i hclose
      cases hend
      exact ⟨t :: (used ++ [c]), k + 1, by simp, .enclosed ht hused hclose,
        fits_succ.mpr ⟨by omega, hk⟩⟩
    · cases hend

theorem groups_sound (ih : ∀ us, us.length < ts.length → Sound limit us)
    {lists : List (List Node)} (h : Reading.groups limit d depth ts = .ok lists us) :
    ∃ used k, ts = used ++ us ∧ Groups d used lists k ∧ Fits limit depth k ∧ ¬ OpensWith d us := by
  cases ts with
  | nil =>
    cases h
    exact ⟨[], 0, rfl, .nil, Fits.zero limit depth, by simp [OpensWith]⟩
  | cons t ts =>
    by_cases hd : t.kind = .opener d
    · rw [Reading.groups_cons _ _ _ _ _ hd] at h
      obtain ⟨first, vs, hg, h⟩ := Parsed.andThen_eq_ok.mp h
      obtain ⟨others, ws, hr, h⟩ := Parsed.andThen_eq_ok.mp h
      cases h
      have hle := Parse.rest_length_le (Reading.group_rest_suffix limit depth d t ts) hg
      obtain ⟨gs, j, hgs, hgroup, hj⟩ := (ih ts (Nat.lt_succ_self _)).group hd hg
      obtain ⟨used, k, rfl, hused, hk, ho⟩ := (ih vs (Nat.lt_succ_of_le hle)).groups hr
      exact ⟨gs ++ used, max j k, by rw [hgs, List.append_assoc], .cons hgroup hused,
        fits_max.mpr ⟨hj, hk⟩, ho⟩
    · rw [Reading.groups_stop _ _ _ _ _ hd] at h
      cases h
      exact ⟨[], 0, rfl, .nil, Fits.zero limit depth, by simpa [OpensWith] using hd⟩

end Sound

theorem sound (limit : Int) (ts : List Token) : Sound limit ts := by
  induction ts using Reading.length_induction with
  | step ts ih =>
    exact ⟨elements_sound ih, group_sound fun _ _ => elements_sound ih, groups_sound ih⟩

theorem beforeEnd_append_ends {ts us : List Token} (hu : Reading.Ends none us)
    (ht : ∀ t ∈ ts, t.kind ≠ .endOfInput) : beforeEnd (ts ++ us) = ts := by
  induction ts with
  | nil =>
    cases us with
    | nil => rfl
    | cons u us =>
      rcases hu with he | hc
      · exact beforeEnd_end us he
      · simp [TokenKind.closes] at hc
  | cons t ts ih =>
    rw [List.cons_append, beforeEnd_cons _ (ht t (by simp)), ih fun t hm => ht t (by simp [hm])]

theorem exists_ends (ts : List Token) : ∃ us, ts = beforeEnd ts ++ us ∧ Reading.Ends none us := by
  induction ts with
  | nil => exact ⟨[], rfl, trivial⟩
  | cons t ts ih =>
    by_cases ht : t.kind = .endOfInput
    · exact ⟨t :: ts, by rw [beforeEnd_end ts ht, List.nil_append], .inl ht⟩
    · obtain ⟨us, hts, hu⟩ := ih
      exact ⟨us, by rw [beforeEnd_cons ts ht, List.cons_append, ← hts], hu⟩

theorem elements_of_parse {ts : List Token} {limit : Int} {document : Node}
    (h : parse ts limit = .ok document) :
    ∃ nodes k, document = .group nodes ∧ Elements none (beforeEnd ts) nodes k ∧ Fits limit 0 k := by
  rw [parse] at h
  split at h
  · rename_i nodes us hp
    cases h
    obtain ⟨used, k, hts, hused, hk⟩ := (sound limit ts).elements hp
    have hu : Reading.Ends none us := Reading.elements_ends hp
    refine ⟨nodes, k, rfl, ?_, hk⟩
    rw [hts, beforeEnd_append_ends hu hused.no_end]
    exact hused
  · cases h

theorem parse_of_elements {ts : List Token} {limit : Int} {nodes : List Node} {k : Nat}
    (h : Elements none (beforeEnd ts) nodes k) (hk : Fits limit 0 k) :
    parse ts limit = .ok (.group nodes) := by
  obtain ⟨us, hts, hu⟩ := exists_ends ts
  have hp := h.complete hk hu
  rw [← hts, ← parseAll_eq] at hp
  rw [parse, hp]

/-- A document is read exactly where the tokens in front of the end of the input derive its children
at top level and every group in them opens inside fewer groups than the limit. -/
theorem parse_eq_ok_iff (ts : List Token) (limit : Int) (document : Node) :
    parse ts limit = .ok document ↔
      ∃ nodes k, document = .group nodes ∧ Elements none (beforeEnd ts) nodes k ∧
        ∀ m < k, (m : Int) < limit := by
  have hfits (k : Nat) : Fits limit 0 k ↔ ∀ m < k, (m : Int) < limit := by simp [Fits]
  constructor
  · intro h
    obtain ⟨nodes, k, hd, he, hk⟩ := elements_of_parse h
    exact ⟨nodes, k, hd, he, (hfits k).mp hk⟩
  · rintro ⟨nodes, k, rfl, h, hk⟩
    exact parse_of_elements h ((hfits k).mpr hk)

end Grammar

end TexHtml
