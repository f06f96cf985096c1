import Mathlib.Data.List.Forall2
import TexHtml.Proofs.Reading

namespace TexHtml

namespace Grammar

inductive Argument : List Node → Node → Prop
  | empty : Argument [] (.text "")
  | single (node : Node) : Argument [node] node
  | several (first second : Node) (others : List Node) :
      Argument (first :: second :: others) (.group (first :: second :: others))

def OpensWith (d : Delimiter) (ts : List Token) : Prop := ∃ t ∈ ts.head?, t.kind = .opener d

mutual

/-- The tokens derive the nodes inside the given delimiters or, with none, at top level. The number
is that of the groups that are open at once where most are. -/
inductive Elements : Option Delimiter → List Token → List Node → Nat → Prop
  | nil {inside : Option Delimiter} : Elements inside [] [] 0
  | text {inside : Option Delimiter} {t : Token} {ts : List Token} {nodes : List Node} {k : Nat}
      (ht : t.kind = .text) (rest : Elements inside ts nodes k) :
      Elements inside (t :: ts) (.text t.content :: nodes) k
  | math {inside : Option Delimiter} {t : Token} {ts : List Token} {nodes : List Node} {k : Nat}
      {display : Bool} (ht : t.kind = .math display) (rest : Elements inside ts nodes k) :
      Elements inside (t :: ts) (.math t.content display :: nodes) k
  | newline {inside : Option Delimiter} {t : Token} {ts : List Token} {nodes : List Node} {k : Nat}
      (ht : t.kind = .newline) (rest : Elements inside ts nodes k) :
      Elements inside (t :: ts) (.text " " :: nodes) k
  | stray {inside : Option Delimiter} {t : Token} {ts : List Token} {nodes : List Node} {k : Nat}
      {d : Delimiter} (ht : t.kind = .closer d) (hd : inside ≠ some d)
      (rest : Elements inside ts nodes k) : Elements inside (t :: ts) nodes k
  | group {inside : Option Delimiter} {d : Delimiter} {gs ts : List Token}
      {children nodes : List Node} {j k : Nat} (first : Group d gs children j)
      (rest : Elements inside ts nodes k) :
      Elements inside (gs ++ ts) (.group children :: nodes) (max j k)
  | command {inside : Option Delimiter} {t : Token} {os rs ts : List Token}
      {optional required : List (List Node)} {arguments nodes : List Node} {i j k : Nat}
      (ht : t.kind = .command) (hos : Groups .bracket os optional i)
      (ho : ¬ OpensWith .bracket (rs ++ ts)) (hrs : Groups .brace rs required j)
      (hr : ¬ OpensWith .brace ts) (ha : List.Forall₂ Argument required arguments)
      (rest : Elements inside ts nodes k) :
      Elements inside (t :: (os ++ (rs ++ ts)))
        (.command t.content arguments optional.flatten :: nodes) (max i (max j k))

inductive Group : Delimiter → List Token → List Node → Nat → Prop
  | enclosed {d : Delimiter} {o c : Token} {ts : List Token} {children : List Node} {k : Nat}
      (ho : o.kind = .opener d) (body : Elements (some d) ts children k) (hc : c.kind = .closer d) :
      Group d (o :: (ts ++ [c])) children (k + 1)

inductive Groups : Delimiter → List Token → List (List Node) → Nat → Prop
  | nil {d : Delimiter} : Groups d [] [] 0
  | cons {d : Delimiter} {gs ts : List Token} {children : List Node} {others : List (List Node)}
      {j k : Nat} (first : Group d gs children j) (rest : Groups d ts others k) :
      Groups d (gs ++ ts) (children :: others) (max j k)

end

theorem argument_iff {nodes : List Node} {argument : Node} :
    Argument nodes argument ↔ packArgument nodes = argument := by
  constructor
  · intro h
    cases h with
    | empty => rfl
    | single node => rfl
    | several first second others => rfl
  · rintro rfl
    match nodes with
    | [] => exact .empty
    | [node] => exact .single node
    | first :: second :: others => exact .several first second others

theorem arguments_iff {required : List (List Node)} {arguments : List Node} :
    List.Forall₂ Argument required arguments ↔ required.map packArgument = arguments := by
  have h : Argument = fun nodes argument => packArgument nodes = argument := by
    funext nodes argument
    exact propext argument_iff
  rw [h, ← List.forall₂_map_left_iff, List.forall₂_eq_eq_eq]

/-- With `depth` groups open around them, groups of nesting `k` all open below the limit. -/
def Fits (limit depth : Int) (k : Nat) : Prop := ∀ m < k, depth + m < limit

theorem Fits.zero (limit depth : Int) : Fits limit depth 0 := by
  intro m hm
  omega

theorem fits_max {limit depth : Int} {j k : Nat} :
    Fits limit depth (max j k) ↔ Fits limit depth j ∧ Fits limit depth k := by
  constructor
  · intro h
    exact ⟨fun m hm => h m (by omega), fun m hm => h m (by omega)⟩
  · rintro ⟨hj, hk⟩ m hm
    rcases Nat.lt_or_ge m j with h | h
    · exact hj m h
    · exact hk m (by omega)

theorem fits_succ {limit depth : Int} {k : Nat} :
    Fits limit depth (k + 1) ↔ depth < limit ∧ Fits limit (depth + 1) k := by
  constructor
  · intro h
    refine ⟨by simpa using h 0 (by omega), ?_⟩
    intro m hm
    have := h (m + 1) (by omega)
    omega
  · rintro ⟨h0, h⟩ m hm
    cases m with
    | zero => simpa using h0
    | succ m =>
      have := h m (by omega)
      omega

theorem closes_iff {kind : TokenKind} {inside : Option Delimiter} :
    kind.closes inside ↔ ∃ d, kind = .closer d ∧ inside = some d := by
  cases inside with
  | none => simp [TokenKind.closes]
  | some d =>
    simp only [TokenKind.closes, decide_eq_true_eq, Option.some.injEq]
    exact ⟨fun h => ⟨d, h, rfl⟩, fun ⟨e, he, hd⟩ => hd ▸ he⟩

theorem closes_eq_false {kind : TokenKind} {inside : Option Delimiter}
    (h : ∀ d, kind = .closer d → inside ≠ some d) : kind.closes inside = false := by
  rw [← Bool.not_eq_true, closes_iff]
  rintro ⟨d, hk, hd⟩
  exact h d hk hd

theorem not_opensWith_of_ends {inside : Option Delimiter} {rest : List Token} (d : Delimiter)
    (h : Reading.Ends inside rest) : ¬ OpensWith d rest := by
  rintro ⟨t, ht, hd⟩
  cases rest with
  | nil => simp at ht
  | cons u rest =>
    simp only [List.head?_cons, Option.mem_def, Option.some.injEq] at ht
    subst ht
    rcases h with he | hc
    · simp [he] at hd
    · obtain ⟨e, he, -⟩ := closes_iff.mp hc
      simp [he] at hd

theorem not_opensWith_append {d : Delimiter} {ts rest : List Token} (ht : ¬ OpensWith d ts)
    (hr : ¬ OpensWith d rest) : ¬ OpensWith d (ts ++ rest) := by
  cases ts with
  | nil => exact hr
  | cons t ts => exact ht

theorem OpensWith.append {d : Delimiter} {ts : List Token} (us : List Token) (h : OpensWith d ts) :
    OpensWith d (ts ++ us) := by
  obtain ⟨t, ht, hd⟩ := h
  cases ts with
  | nil => simp at ht
  | cons u ts => exact ⟨t, ht, hd⟩

theorem not_opensWith_cons {t : Token} {ts : List Token} {d : Delimiter} (ht : t.kind ≠ .opener d) :
    ¬ OpensWith d (t :: ts) := by
  rintro ⟨u, hu, hd⟩
  cases hu
  exact ht hd

theorem Elements.nodes_eq_nil {inside : Option Delimiter} {nodes : List Node} {k : Nat}
    (h : Elements inside [] nodes k) : nodes = [] := by
  generalize hts : ([] : List Token) = ts at h
  cases h with
  | nil => rfl
  | group first rest =>
    cases first with
    | enclosed => cases hts
  | _ => cases hts

theorem Groups.lists_eq_nil {d : Delimiter} {lists : List (List Node)} {k : Nat}
    (h : Groups d [] lists k) : lists = [] := by
  generalize hts : ([] : List Token) = ts at h
  cases h with
  | nil => rfl
  | cons first rest =>
    cases first with
    | enclosed => cases hts

mutual

theorem Elements.no_end {inside : Option Delimiter} {ts : List Token} {nodes : List Node} {k : Nat}
    (h : Elements inside ts nodes k) : ∀ t ∈ ts, t.kind ≠ .endOfInput := by
  match h with
  | .nil => simp
  | .text ht tail => exact List.forall_mem_cons.mpr ⟨by simp [ht], tail.no_end⟩
  | .math ht tail => exact List.forall_mem_cons.mpr ⟨by simp [ht], tail.no_end⟩
  | .newline ht tail => exact List.forall_mem_cons.mpr ⟨by simp [ht], tail.no_end⟩
  | .stray ht _ tail => exact List.forall_mem_cons.mpr ⟨by simp [ht], tail.no_end⟩
  | .group first tail => exact List.forall_mem_append.mpr ⟨first.no_end, tail.no_end⟩
  | .command ht hos _ hrs _ _ tail =>
    refine List.forall_mem_cons.mpr ⟨by simp [ht], List.forall_mem_append.mpr ⟨hos.no_end, ?_⟩⟩
    exact List.forall_mem_append.mpr ⟨hrs.no_end, tail.no_end⟩

theorem Group.no_end {d : Delimiter} {ts : List Token} {nodes : List Node} {k : Nat}
    (h : Group d ts nodes k) : ∀ t ∈ ts, t.kind ≠ .endOfInput := by
  match h with
  | .enclosed ho body hc =>
    refine List.forall_mem_cons.mpr ⟨by simp [ho], List.forall_mem_append.mpr ⟨body.no_end, ?_⟩⟩
    simp [hc]

theorem Groups.no_end {d : Delimiter} {ts : List Token} {lists : List (List Node)} {k : Nat}
    (h : Groups d ts lists k) : ∀ t ∈ ts, t.kind ≠ .endOfInput := by
  match h with
  | .nil => simp
  | .cons first tail => exact List.forall_mem_append.mpr ⟨first.no_end, tail.no_end⟩

end

end Grammar

end TexHtml
