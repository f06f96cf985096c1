import TexHtml.Text.Utf8

namespace TexHtml.Text.Utf8

theorem toNat_octet {n : Nat} (h : n < 256) : n.toUInt8.toNat = n :=
  UInt8.toNat_ofNat_of_lt h

theorem continued_succ {number done count low high : Nat} {b : UInt8} {rest : List UInt8}
    (hlow : low ≤ b.toNat) (hhigh : b.toNat ≤ high) :
    continued number done (count + 1) low high (b :: rest) =
      continued (number * 64 + (b.toNat - 0x80)) (done + 1) count 0x80 0xBF rest := by
  rw [continued, if_pos (by simp [between, hlow, hhigh])]

theorem continued_six {number done count m : Nat} {rest : List UInt8} (h : m < 64) :
    continued number done (count + 1) 0x80 0xBF ((0x80 + m).toUInt8 :: rest) =
      continued (number * 64 + m) (done + 1) count 0x80 0xBF rest := by
  have hb : (0x80 + m).toUInt8.toNat = 0x80 + m := toNat_octet (by omega)
  rw [continued_succ (by omega) (by omega), hb, Nat.add_sub_cancel_left]

theorem head_of_followers {b : UInt8} {count low high : Nat} {rest : List UInt8}
    (hb : 0x80 ≤ b.toNat) (h : followers b = some (count, low, high)) :
    head b rest = continued (leading b) 1 count low high rest := by
  rw [head, if_neg (by omega), h]

variable {n : Nat}

theorem followers_two (hlow : 0x80 ≤ n) (hhigh : n < 0x800) :
    followers (0xC0 + n / 64).toUInt8 = some (1, 0x80, 0xBF) := by
  have hb : (0xC0 + n / 64).toUInt8.toNat = 0xC0 + n / 64 := toNat_octet (by omega)
  rw [followers, if_pos]
  simp only [between, hb, Bool.and_eq_true, decide_eq_true_eq]
  omega

theorem followers_three (hlow : 0x800 ≤ n) (hhigh : n < 0x10000) (hvalid : n.isValidChar) :
    ∃ low high, followers (0xE0 + n / 4096).toUInt8 = some (2, low, high) ∧
      low ≤ 0x80 + n / 64 % 64 ∧ 0x80 + n / 64 % 64 ≤ high := by
  have hb : (0xE0 + n / 4096).toUInt8.toNat = 0xE0 + n / 4096 := toNat_octet (by omega)
  have hsurrogate : n < 0xD800 ∨ 0xDFFF < n := hvalid.imp id And.left
  generalize (0xE0 + n / 4096).toUInt8 = b at hb
  by_cases hfirst : b = 0xE0
  · refine ⟨0xA0, 0xBF, by rw [hfirst]; rfl, ?_⟩
    rw [hfirst, show (0xE0 : UInt8).toNat = 0xE0 from rfl] at hb
    omega
  by_cases hsecond : b = 0xED
  · refine ⟨0x80, 0x9F, by rw [hsecond]; rfl, ?_⟩
    rw [hsecond, show (0xED : UInt8).toNat = 0xED from rfl] at hb
    omega
  have hne : b.toNat ≠ 0xE0 := fun h => hfirst (UInt8.toNat_inj.mp h)
  refine ⟨0x80, 0xBF, ?_, by omega⟩
  rw [followers, if_neg, if_neg hfirst, if_neg hsecond, if_pos]
  all_goals
    simp only [between, Bool.and_eq_true, decide_eq_true_eq]
    omega

theorem followers_four (hlow : 0x10000 ≤ n) (hvalid : n.isValidChar) :
    ∃ low high, followers (0xF0 + n / 262144).toUInt8 = some (3, low, high) ∧
      low ≤ 0x80 + n / 4096 % 64 ∧ 0x80 + n / 4096 % 64 ≤ high := by
  have hlast : n < 0x110000 := hvalid.elim (fun h => by omega) And.right
  have hb : (0xF0 + n / 262144).toUInt8.toNat = 0xF0 + n / 262144 := toNat_octet (by omega)
  generalize (0xF0 + n / 262144).toUInt8 = b at hb
  by_cases hfirst : b = 0xF0
  · refine ⟨0x90, 0xBF, by rw [hfirst]; rfl, ?_⟩
    rw [hfirst, show (0xF0 : UInt8).toNat = 0xF0 from rfl] at hb
    omega
  by_cases hsecond : b = 0xF4
  · refine ⟨0x80, 0x8F, by rw [hsecond]; rfl, ?_⟩
    rw [hsecond, show (0xF4 : UInt8).toNat = 0xF4 from rfl] at hb
    omega
  have hne : b.toNat ≠ 0xF0 := fun h => hfirst (UInt8.toNat_inj.mp h)
  have hne' : b.toNat ≠ 0xF4 := fun h => hsecond (UInt8.toNat_inj.mp h)
  have hother (octet : UInt8) (ho : octet.toNat < 0xF0) : b ≠ octet := by
    rintro rfl
    omega
  refine ⟨0x80, 0xBF, ?_, by omega⟩
  rw [followers, if_neg, if_neg (hother 0xE0 (by decide)), if_neg (hother 0xED (by decide)), if_neg,
    if_neg hfirst, if_neg hsecond, if_pos]
  all_goals
    simp only [between, Bool.and_eq_true, decide_eq_true_eq]
    omega

theorem head_one (h : n < 0x80) (rest : List UInt8) :
    head n.toUInt8 rest = .char (Char.ofNat n) rest := by
  have hb : n.toUInt8.toNat = n := toNat_octet (by omega)
  rw [head, if_pos (by omega), hb]

theorem head_two (hlow : 0x80 ≤ n) (hhigh : n < 0x800) (rest : List UInt8) :
    head (0xC0 + n / 64).toUInt8 ((0x80 + n % 64).toUInt8 :: rest) =
      .char (Char.ofNat n) rest := by
  have hb : (0xC0 + n / 64).toUInt8.toNat = 0xC0 + n / 64 := toNat_octet (by omega)
  have hleading : leading (0xC0 + n / 64).toUInt8 = n / 64 := by
    rw [leading, hb, if_pos (by omega), Nat.add_sub_cancel_left]
  rw [head_of_followers (by omega) (followers_two hlow hhigh), hleading, continued_six (by omega),
    continued, Nat.div_add_mod']

theorem head_three (hlow : 0x800 ≤ n) (hhigh : n < 0x10000) (hvalid : n.isValidChar)
    (rest : List UInt8) :
    head (0xE0 + n / 4096).toUInt8
      ((0x80 + n / 64 % 64).toUInt8 :: (0x80 + n % 64).toUInt8 :: rest) =
      .char (Char.ofNat n) rest := by
  obtain ⟨low, high, hfollowers, hfrom, hto⟩ := followers_three hlow hhigh hvalid
  have hb : (0xE0 + n / 4096).toUInt8.toNat = 0xE0 + n / 4096 := toNat_octet (by omega)
  have hb' : (0x80 + n / 64 % 64).toUInt8.toNat = 0x80 + n / 64 % 64 := toNat_octet (by omega)
  have hleading : leading (0xE0 + n / 4096).toUInt8 = n / 4096 := by
    rw [leading, hb, if_neg (by omega), if_pos (by omega), Nat.add_sub_cancel_left]
  have hnumber : (n / 4096 * 64 + (0x80 + n / 64 % 64 - 0x80)) * 64 + n % 64 = n := by omega
  rw [head_of_followers (by omega) hfollowers, hleading, continued_succ (by omega) (by omega), hb',
    continued_six (by omega), continued, hnumber]

theorem head_four (hlow : 0x10000 ≤ n) (hvalid : n.isValidChar) (rest : List UInt8) :
    head (0xF0 + n / 262144).toUInt8
      ((0x80 + n / 4096 % 64).toUInt8 :: (0x80 + n / 64 % 64).toUInt8 ::
        (0x80 + n % 64).toUInt8 :: rest) =
      .char (Char.ofNat n) rest := by
  obtain ⟨low, high, hfollowers, hfrom, hto⟩ := followers_four hlow hvalid
  have hlast : n < 0x110000 := hvalid.elim (fun h => by omega) And.right
  have hb : (0xF0 + n / 262144).toUInt8.toNat = 0xF0 + n / 262144 := toNat_octet (by omega)
  have hb' : (0x80 + n / 4096 % 64).toUInt8.toNat = 0x80 + n / 4096 % 64 := toNat_octet (by omega)
  have hleading : leading (0xF0 + n / 262144).toUInt8 = n / 262144 := by
    rw [leading, hb, if_neg (by omega), if_neg (by omega), Nat.add_sub_cancel_left]
  have hnumber : ((n / 262144 * 64 + (0x80 + n / 4096 % 64 - 0x80)) * 64 + n / 64 % 64) * 64 +
      n % 64 = n := by omega
  rw [head_of_followers (by omega) hfollowers, hleading, continued_succ (by omega) (by omega), hb',
    continued_six (by omega), continued_six (by omega), continued, hnumber]

theorem head_encodeChar (c : Char) (rest : List UInt8) :
    ∃ b tail, encodeChar c = b :: tail ∧ head b (tail ++ rest) = .char c rest := by
  have hvalid : c.toNat.isValidChar := c.valid
  have hchar : Char.ofNat c.toNat = c := Char.ofNat_toNat c
  rw [encodeChar]
  by_cases hone : c.toNat < 0x80
  · exact ⟨_, _, if_pos hone, (head_one hone rest).trans (by rw [hchar])⟩
  rw [if_neg hone]
  by_cases htwo : c.toNat < 0x800
  · exact ⟨_, _, if_pos htwo, (head_two (by omega) htwo rest).trans (by rw [hchar])⟩
  rw [if_neg htwo]
  by_cases hthree : c.toNat < 0x10000
  · exact ⟨_, _, if_pos hthree, (head_three (by omega) hthree hvalid rest).trans (by rw [hchar])⟩
  · exact ⟨_, _, if_neg hthree, (head_four (by omega) hvalid rest).trans (by rw [hchar])⟩

theorem scan_encode (cs : List Char) (start : Nat) : scan start (encode cs) = (cs, .finished) := by
  induction cs generalizing start with
  | nil => rw [encode, List.flatMap_nil, scan]
  | cons c cs ih =>
    obtain ⟨b, tail, hoctets, hhead⟩ := head_encodeChar c (encode cs)
    have hencode : encode (c :: cs) = b :: (tail ++ encode cs) := by
      rw [encode, List.flatMap_cons, hoctets]
      rfl
    rw [hencode, scan]
    split
    · rename_i c' rest hchar
      cases hhead.symm.trans hchar
      rw [ih]
    · rename_i hcut
      cases hhead.symm.trans hcut
    · rename_i hbad
      cases hhead.symm.trans hbad

theorem decodeInBlocks_encode (cs : List Char) : decodeInBlocks (encode cs) = .ok cs := by
  rw [decodeInBlocks, decode, scan_encode]

theorem octet_eq {b : UInt8} {n : Nat} (h : n = b.toNat) : n.toUInt8 = b := by
  rw [h]
  exact UInt8.ofNat_toNat

theorem toNat_ofNat {n : Nat} (h : n.isValidChar) : (Char.ofNat n).toNat = n := by
  rw [Char.ofNat, dif_pos h]
  rfl

theorem eq_of_continued_zero {number done low high : Nat} {s rest : List UInt8} {c : Char}
    (h : continued number done 0 low high s = .char c rest) : c = Char.ofNat number ∧ rest = s := by
  rw [continued] at h
  obtain ⟨hc, hrest⟩ := Head.char.inj h
  exact ⟨hc.symm, hrest.symm⟩

theorem exists_of_continued_succ {number done count low high : Nat} {s rest : List UInt8} {c : Char}
    (h : continued number done (count + 1) low high s = .char c rest) :
    ∃ b tail, s = b :: tail ∧ low ≤ b.toNat ∧ b.toNat ≤ high ∧
      continued (number * 64 + (b.toNat - 0x80)) (done + 1) count 0x80 0xBF tail = .char c rest := by
  cases s with
  | nil => cases h
  | cons b tail =>
    rw [continued] at h
    split at h
    · rename_i hbetween
      simp only [between, Bool.and_eq_true, decide_eq_true_eq] at hbetween
      exact ⟨b, tail, rfl, hbetween.1, hbetween.2, h⟩
    · cases h

/-- The first octet tells how many follow, and the nearest of them lies in a range that leaves out
what could be written shorter, surrogates and numbers beyond the last character. -/
theorem followers_cases {b : UInt8} {count low high : Nat}
    (h : followers b = some (count, low, high)) :
    (count = 1 ∧ 0xC2 ≤ b.toNat ∧ b.toNat ≤ 0xDF ∧ low = 0x80 ∧ high = 0xBF) ∨
    (count = 2 ∧ 0xE0 ≤ b.toNat ∧ b.toNat ≤ 0xEF ∧ 0x80 ≤ low ∧ high ≤ 0xBF ∧
      (b.toNat = 0xE0 → 0xA0 ≤ low) ∧ (b.toNat = 0xED → high ≤ 0x9F)) ∨
    (count = 3 ∧ 0xF0 ≤ b.toNat ∧ b.toNat ≤ 0xF4 ∧ 0x80 ≤ low ∧ high ≤ 0xBF ∧
      (b.toNat = 0xF0 → 0x90 ≤ low) ∧ (b.toNat = 0xF4 → high ≤ 0x8F)) := by
  have hnat (octet : UInt8) : b = octet ↔ b.toNat = octet.toNat := UInt8.toNat_inj.symm
  simp only [followers, between, hnat, UInt8.reduceToNat, Bool.and_eq_true, decide_eq_true_eq] at h
  repeat' split at h
  all_goals cases h
  all_goals omega

theorem encodeChar_one {n : Nat} (h : n < 0x80) : encodeChar (Char.ofNat n) = [n.toUInt8] := by
  rw [encodeChar, toNat_ofNat (.inl (by omega)), if_pos h]

theorem encodeChar_two {n : Nat} (hlow : 0x80 ≤ n) (hhigh : n < 0x800) :
    encodeChar (Char.ofNat n) = [(0xC0 + n / 64).toUInt8, (0x80 + n % 64).toUInt8] := by
  rw [encodeChar, toNat_ofNat (.inl (by omega)), if_neg (by omega), if_pos hhigh]

theorem encodeChar_three {n : Nat} (hlow : 0x800 ≤ n) (hhigh : n < 0x10000)
    (hvalid : n.isValidChar) :
    encodeChar (Char.ofNat n) = [(0xE0 + n / 4096).toUInt8, (0x80 + n / 64 % 64).toUInt8,
      (0x80 + n % 64).toUInt8] := by
  rw [encodeChar, toNat_ofNat hvalid, if_neg (by omega), if_neg (by omega), if_pos hhigh]

theorem encodeChar_four {n : Nat} (hlow : 0x10000 ≤ n) (hvalid : n.isValidChar) :
    encodeChar (Char.ofNat n) = [(0xF0 + n / 262144).toUInt8, (0x80 + n / 4096 % 64).toUInt8,
      (0x80 + n / 64 % 64).toUInt8, (0x80 + n % 64).toUInt8] := by
  rw [encodeChar, toNat_ofNat hvalid, if_neg (by omega), if_neg (by omega), if_neg (by omega)]

theorem leading_eq {b : UInt8} :
    (b.toNat < 0xE0 → leading b = b.toNat - 0xC0) ∧
    (0xE0 ≤ b.toNat → b.toNat < 0xF0 → leading b = b.toNat - 0xE0) ∧
    (0xF0 ≤ b.toNat → leading b = b.toNat - 0xF0) := by
  refine ⟨fun h => ?_, fun hlow hhigh => ?_, fun h => ?_⟩
  · rw [leading, if_pos h]
  · rw [leading, if_neg (by omega), if_pos hhigh]
  · rw [leading, if_neg (by omega), if_neg (by omega)]

theorem octets_of_head {b : UInt8} {s rest : List UInt8} {c : Char}
    (h : head b s = .char c rest) : b :: s = encodeChar c ++ rest := by
  rw [head] at h
  split at h
  · rename_i hone
    cases h
    rw [encodeChar_one hone, octet_eq rfl]
    rfl
  split at h
  · cases h
  rename_i count low high hfollowers
  rcases followers_cases hfollowers with
    ⟨rfl, hfrom, hto, rfl, rfl⟩ | ⟨rfl, hfrom, hto, hlow, hhigh, hshort, hsurrogate⟩ |
      ⟨rfl, hfrom, hto, hlow, hhigh, hshort, hlast⟩
  · obtain ⟨b₁, s, rfl, hl₁, hh₁, h⟩ := exists_of_continued_succ h
    obtain ⟨hc, hrest⟩ := eq_of_continued_zero h
    rw [hc, hrest, leading_eq.1 (by omega), encodeChar_two (by omega) (by omega),
      octet_eq (b := b) (by omega), octet_eq (b := b₁) (by omega)]
    rfl
  · obtain ⟨b₁, s, rfl, hl₁, hh₁, h⟩ := exists_of_continued_succ h
    obtain ⟨b₂, s, rfl, hl₂, hh₂, h⟩ := exists_of_continued_succ h
    obtain ⟨hc, hrest⟩ := eq_of_continued_zero h
    have hvalid :
        (((b.toNat - 0xE0) * 64 + (b₁.toNat - 0x80)) * 64 + (b₂.toNat - 0x80)).isValidChar := by
      simp only [Nat.isValidChar]
      omega
    rw [hc, hrest, leading_eq.2.1 hfrom (by omega), encodeChar_three (by omega) (by omega) hvalid,
      octet_eq (b := b) (by omega), octet_eq (b := b₁) (by omega), octet_eq (b := b₂) (by omega)]
    rfl
  · obtain ⟨b₁, s, rfl, hl₁, hh₁, h⟩ := exists_of_continued_succ h
    obtain ⟨b₂, s, rfl, hl₂, hh₂, h⟩ := exists_of_continued_succ h
    obtain ⟨b₃, s, rfl, hl₃, hh₃, h⟩ := exists_of_continued_succ h
    obtain ⟨hc, hrest⟩ := eq_of_continued_zero h
    have hvalid : ((((b.toNat - 0xF0) * 64 + (b₁.toNat - 0x80)) * 64 + (b₂.toNat - 0x80)) * 64 +
        (b₃.toNat - 0x80)).isValidChar := by
      simp only [Nat.isValidChar]
      omega
    rw [hc, hrest, leading_eq.2.2 hfrom, encodeChar_four (by omega) hvalid,
      octet_eq (b := b) (by omega), octet_eq (b := b₁) (by omega), octet_eq (b := b₂) (by omega),
      octet_eq (b := b₃) (by omega)]
    rfl

theorem octets_of_scan {start : Nat} {octets : List UInt8} {cs : List Char}
    (h : scan start octets = (cs, .finished)) : octets = encode cs := by
  induction hn : octets.length using Nat.strongRecOn generalizing start octets cs with
  | ind n ih =>
    cases octets with
    | nil =>
      rw [scan] at h
      cases h
      rfl
    | cons b s =>
      rw [scan] at h
      split at h
      · rename_i c rest hhead
        have hshorter : rest.length < n := by
          have hlength := length_of_head hhead
          rw [List.length_cons] at hn
          omega
        obtain ⟨hcs, hstop⟩ := Prod.mk.inj h
        have hrest := ih rest.length hshorter (Prod.ext rfl hstop) rfl
        rw [octets_of_head hhead, ← hcs]
        exact congrArg (encodeChar c ++ ·) hrest
      · cases h
      · cases h

theorem decode_eq_ok_iff {octets : List UInt8} {cs : List Char} :
    decode octets = .ok cs ↔ octets = encode cs := by
  constructor
  · intro h
    rw [decode] at h
    split at h
    · rename_i hscan
      cases h
      exact octets_of_scan hscan
    · cases h
    · cases h
  · rintro rfl
    rw [decode, scan_encode]

theorem decode_encode (cs : List Char) : decode (encode cs) = .ok cs := decode_eq_ok_iff.mpr rfl

theorem encode_injective : Function.Injective encode := by
  intro cs ds h
  have hsame : (.ok cs : Except CodecError (List Char)) = .ok ds := by
    rw [← decode_encode cs, h, decode_encode]
  exact Except.ok.inj hsame

end TexHtml.Text.Utf8
