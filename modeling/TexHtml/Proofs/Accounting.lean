import TexHtml.Proofs.Fragment
import TexHtml.Proofs.Visiting

namespace TexHtml

inductive Role where
  | bare
  | optional
  | required
  deriving DecidableEq

/-- What a group is if it opens behind a group of the given role. A command itself counts as one of
its optional arguments here. -/
def Role.opening (front : Role) (d : Delimiter) : Role :=
  match front, d with
  | .optional, .bracket => .optional
  | .optional, .brace => .required
  | .required, .brace => .required
  | _, _ => .bare

structure Enclosure where
  delimiter : Delimiter
  role : Role
  elements : Nat
  deriving DecidableEq

/-- The group gives no node of its own. -/
def Enclosure.dissolves (e : Enclosure) : Bool :=
  e.role = .optional || (e.role = .required && e.elements = 1)

/-- What a pass over tokens has seen: the groups that are open, the innermost first, those that were
closed, and the closing delimiters that close nothing. -/
structure Survey where
  opened : List Enclosure
  closed : List Enclosure
  strays : Nat
  front : Role

namespace Survey

def start : Survey := ⟨[], [], 0, .bare⟩

def add (k : Nat) : List Enclosure → List Enclosure
  | [] => []
  | e :: rest => { e with elements := e.elements + k } :: rest

def element (s : Survey) (front : Role) : Survey :=
  { s with opened := add 1 s.opened, front := front }

/-- A group opens. Only if it is no argument, it is an element by itself. -/
def enter (s : Survey) (d : Delimiter) : Survey :=
  let role := s.front.opening d
  let around := if role = .bare then add 1 s.opened else s.opened
  { s with opened := ⟨d, role, 0⟩ :: around, front := .bare }

def skip (s : Survey) : Survey := { s with strays := s.strays + 1, front := .bare }

def leave (s : Survey) (d : Delimiter) : Survey :=
  match s.opened with
  | [] => s.skip
  | e :: rest =>
    if e.delimiter = d then { s with opened := rest, closed := e :: s.closed, front := e.role }
    else s.skip

def step (s : Survey) (t : Token) : Survey :=
  match t.kind with
  | .command => s.element .optional
  | .text | .math _ | .newline => s.element .bare
  | .opener d => s.enter d
  | .closer d => s.leave d
  | .endOfInput => s

def run (s : Survey) (ts : List Token) : Survey := ts.foldl step s

theorem run_cons (s : Survey) (t : Token) (ts : List Token) :
    s.run (t :: ts) = (s.step t).run ts := rfl

theorem run_append (s : Survey) (ts us : List Token) : s.run (ts ++ us) = (s.run ts).run us :=
  List.foldl_append

def innermost (opened : List Enclosure) : Option Delimiter := opened.head?.map Enclosure.delimiter

@[simp] theorem innermost_add (k : Nat) (opened : List Enclosure) :
    innermost (add k opened) = innermost opened := by
  cases opened <;> rfl

@[simp] protected theorem add_add (j k : Nat) (opened : List Enclosure) :
    add k (add j opened) = add (j + k) opened := by
  cases opened <;> simp [add, Nat.add_assoc]

@[simp] protected theorem add_zero (opened : List Enclosure) : add 0 opened = opened := by
  cases opened <;> rfl

def weight (s : Survey) : Nat :=
  s.strays + s.closed.length + s.closed.countP Enclosure.dissolves

section Steps

variable {s : Survey} {t : Token} {d : Delimiter}

theorem step_leaf {n : Node} (ht : t.leaf? = some n) : s.step t = s.element .bare := by
  cases hk : t.kind <;> simp_all [Token.leaf?, step]

theorem step_command (ht : t.kind = .command) : s.step t = s.element .optional := by
  simp only [step, ht]

theorem step_opener (ht : t.kind = .opener d) : s.step t = s.enter d := by
  simp only [step, ht]

theorem step_stray (ht : t.kind = .closer d) (hd : innermost s.opened ≠ some d) :
    s.step t = s.skip := by
  simp only [step, ht, leave]
  cases ho : s.opened with
  | nil => rfl
  | cons e rest =>
    have hne : e.delimiter ≠ d := by simpa [ho, innermost] using hd
    exact if_neg hne

theorem step_closer {e : Enclosure} {rest : List Enclosure} (ht : t.kind = .closer e.delimiter)
    (ho : s.opened = e :: rest) :
    s.step t = { s with opened := rest, closed := e :: s.closed, front := e.role } := by
  simp only [step, ht, leave, ho, if_true]

end Steps

end Survey

def size (nodes : List Node) : Nat := (Node.flattenAll nodes).length

@[simp] theorem size_nil : size [] = 0 := rfl

theorem size_cons (n : Node) (nodes : List Node) :
    size (n :: nodes) = n.flatten.length + size nodes := by
  rw [size, Node.flattenAll, List.length_append, size]

theorem size_append (ns ms : List Node) : size (ns ++ ms) = size ns + size ms := by
  induction ns with
  | nil => simp
  | cons n ns ih => rw [List.cons_append, size_cons, size_cons, ih, Nat.add_assoc]

def Enclosure.ownNodes (e : Enclosure) : Nat := if e.dissolves then 0 else 1

namespace Grammar

open Survey

theorem Group.opensWith {d : Delimiter} {gs : List Token} {children : List Node} {k : Nat}
    (h : Group d gs children k) : OpensWith d gs := by
  cases h with
  | enclosed ho body hc => exact ⟨_, rfl, ho⟩

theorem Argument.size_eq {children : List Node} {argument : Node} (h : Argument children argument) :
    argument.flatten.length =
      size children + Enclosure.ownNodes ⟨.brace, .required, children.length⟩ := by
  cases h with
  | empty => rfl
  | single => simp [size_cons, Enclosure.ownNodes, Enclosure.dissolves]
  | several first second others =>
    simp [size, Node.flatten, Enclosure.ownNodes, Enclosure.dissolves]

def sizes (d : Delimiter) (role : Role) : List (List Node) → Nat
  | [] => 0
  | children :: lists =>
    size children + Enclosure.ownNodes ⟨d, role, children.length⟩ + sizes d role lists

theorem sizes_optional (lists : List (List Node)) :
    sizes .bracket .optional lists = size lists.flatten := by
  induction lists with
  | nil => rfl
  | cons children lists ih =>
    rw [List.flatten_cons, size_append, ← ih]
    simp [sizes, Enclosure.ownNodes, Enclosure.dissolves]

theorem sizes_required {required : List (List Node)} {arguments : List Node}
    (h : List.Forall₂ Argument required arguments) :
    sizes .brace .required required = size arguments := by
  induction h with
  | nil => rfl
  | cons first rest ih =>
    rw [size_cons, first.size_eq, ← ih, sizes]

structure Accounts (s : Survey) (ts : List Token) (nodes : List Node) : Prop where
  opened : (s.run ts).opened = add nodes.length s.opened
  weight : (s.run ts).weight + size nodes = s.weight + ts.length

def enclosure (s : Survey) (d : Delimiter) (children : List Node) : Enclosure :=
  ⟨d, s.front.opening d, children.length⟩

structure AccountsGroup (s : Survey) (d : Delimiter) (ts : List Token) (children : List Node) :
    Prop where
  opened : (s.run ts).opened = if s.front.opening d = .bare then add 1 s.opened else s.opened
  front : (s.run ts).front = s.front.opening d
  weight : (s.run ts).weight + (size children + (enclosure s d children).ownNodes) =
    s.weight + ts.length

theorem Accounts.leaf {s : Survey} {t : Token} {ts : List Token} {n : Node} {nodes : List Node}
    (ht : t.leaf? = some n) (hn : n.flatten.length = 1)
    (h : Accounts (s.element .bare) ts nodes) :
    Accounts s (t :: ts) (n :: nodes) := by
  constructor
  · rw [run_cons, step_leaf ht, h.opened, element, Survey.add_add, List.length_cons, Nat.add_comm]
  · have hrest : _ = s.weight + ts.length := h.weight
    rw [run_cons, step_leaf ht, size_cons, hn, List.length_cons]
    omega

theorem Accounts.stray {s : Survey} {t : Token} {ts : List Token} {nodes : List Node}
    {d : Delimiter} (ht : t.kind = .closer d) (hd : innermost s.opened ≠ some d)
    (h : Accounts s.skip ts nodes) : Accounts s (t :: ts) nodes := by
  have hskip : s.skip.weight = s.weight + 1 := by
    simp only [Survey.weight, skip]
    omega
  constructor
  · rw [run_cons, step_stray ht hd, h.opened, skip]
  · rw [run_cons, step_stray ht hd, h.weight, hskip, List.length_cons]
    omega

theorem Accounts.group {s : Survey} {gs ts : List Token} {children nodes : List Node}
    {d : Delimiter} (hg : AccountsGroup s d gs children) (hb : s.front.opening d = .bare)
    (h : Accounts (s.run gs) ts nodes) : Accounts s (gs ++ ts) (.group children :: nodes) := by
  have hown : (enclosure s d children).ownNodes = 1 := by
    simp [Enclosure.ownNodes, Enclosure.dissolves, enclosure, hb]
  constructor
  · rw [run_append, h.opened, hg.opened, if_pos hb, Survey.add_add, List.length_cons, Nat.add_comm]
  · have hgroup := hg.weight
    have hrest := h.weight
    rw [hown] at hgroup
    rw [run_append, size_cons, Node.flatten, List.length_cons, List.length_append]
    rw [size] at hgroup
    omega

theorem AccountsGroup.enclosed {s : Survey} {o c : Token} {ts : List Token} {children : List Node}
    {d : Delimiter} (ho : o.kind = .opener d) (hc : c.kind = .closer d)
    (h : Accounts (s.enter d) ts children) : AccountsGroup s d (o :: (ts ++ [c])) children := by
  have hopened : ((s.enter d).run ts).opened = enclosure s d children ::
      (if s.front.opening d = .bare then add 1 s.opened else s.opened) := by
    rw [h.opened, enter, add, Nat.zero_add]
    rfl
  have hrun : s.run (o :: (ts ++ [c])) = ((s.enter d).run ts).step c := by
    rw [run_cons, step_opener ho, run_append]
    rfl
  rw [step_closer hc hopened] at hrun
  constructor
  · rw [hrun]
  · rw [hrun]
    rfl
  · have hweight := h.weight
    change _ = s.weight + ts.length at hweight
    rw [hrun]
    simp only [Survey.weight, List.length_cons, List.countP_cons, List.length_append,
      Enclosure.ownNodes, List.length_nil] at hweight ⊢
    split <;> omega

structure AccountsGroups (s : Survey) (d : Delimiter) (role : Role) (ts : List Token)
    (lists : List (List Node)) : Prop where
  opened : (s.run ts).opened = s.opened
  front : (s.run ts).front = if ts = [] then s.front else role
  weight : (s.run ts).weight + sizes d role lists = s.weight + ts.length

theorem AccountsGroups.cons {s : Survey} {d : Delimiter} {role : Role} {gs ts : List Token}
    {children : List Node} {lists : List (List Node)} (hg : AccountsGroup s d gs children)
    (ho : OpensWith d gs) (hs : s.front.opening d = role) (hb : role ≠ .bare)
    (h : AccountsGroups (s.run gs) d role ts lists) :
    AccountsGroups s d role (gs ++ ts) (children :: lists) := by
  have hne : gs ≠ [] := by
    rintro rfl
    obtain ⟨t, ht, -⟩ := ho
    cases ht
  have hgroup := hg.weight
  have hrest := h.weight
  constructor
  · rw [run_append, h.opened, hg.opened, if_neg (hs ▸ hb)]
  · rw [run_append, h.front, hg.front, hs, ite_self, if_neg (by simp [hne])]
  · rw [enclosure, hs] at hgroup
    rw [run_append, List.length_append, sizes]
    omega

theorem Accounts.command {s : Survey} {t : Token} {os rs ts : List Token}
    {optional required : List (List Node)} {arguments nodes : List Node} (ht : t.kind = .command)
    (hos : AccountsGroups (s.element .optional) .bracket .optional os optional)
    (hrs : AccountsGroups ((s.element .optional).run os) .brace .required rs required)
    (ha : List.Forall₂ Argument required arguments)
    (h : Accounts (((s.element .optional).run os).run rs) ts nodes) :
    Accounts s (t :: (os ++ (rs ++ ts)))
      (.command t.content arguments optional.flatten :: nodes) := by
  have hrun : s.run (t :: (os ++ (rs ++ ts))) = (((s.element .optional).run os).run rs).run ts := by
    rw [run_cons, step_command ht, run_append, run_append]
  constructor
  · rw [hrun, h.opened, hrs.opened, hos.opened, element, Survey.add_add, List.length_cons,
      Nat.add_comm]
  · have hoptional : _ = s.weight + os.length := hos.weight
    have hrequired := hrs.weight
    have hrest := h.weight
    rw [sizes_optional, size] at hoptional
    rw [sizes_required ha, size] at hrequired
    rw [hrun, size_cons, Node.flatten]
    simp only [List.length_cons, List.length_append]
    omega

mutual

theorem Elements.accounts {inside : Option Delimiter} {ts : List Token} {nodes : List Node}
    {k : Nat} (h : Elements inside ts nodes k) {s : Survey} (hs : innermost s.opened = inside)
    (hf : ∀ d, OpensWith d ts → s.front.opening d = .bare) : Accounts s ts nodes := by
  have hadd : innermost (add 1 s.opened) = inside := (innermost_add 1 s.opened).trans hs
  match h with
  | .nil => exact ⟨(Survey.add_zero _).symm, rfl⟩
  | .text ht tail =>
    exact .leaf (by simp only [Token.leaf?, ht]) rfl (tail.accounts hadd fun _ _ => rfl)
  | .math ht tail =>
    exact .leaf (by simp only [Token.leaf?, ht]) rfl (tail.accounts hadd fun _ _ => rfl)
  | .newline ht tail =>
    exact .leaf (by simp only [Token.leaf?, ht]) rfl (tail.accounts hadd fun _ _ => rfl)
  | .stray ht hd tail => exact .stray ht (hs ▸ hd) (tail.accounts hs fun _ _ => rfl)
  | @Elements.group _ d gs _ _ _ _ _ first tail =>
    have hgroup := first.accounts s
    have hb : s.front.opening d = .bare := hf d (first.opensWith.append _)
    refine .group hgroup hb (tail.accounts ?_ ?_)
    · rw [hgroup.opened, if_pos hb, hadd]
    · rw [hgroup.front, hb]
      exact fun _ _ => rfl
  | @Elements.command _ t os rs ts _ _ _ _ _ _ _ ht hos ho hrs hr ha tail =>
    have hoptional : AccountsGroups (s.element .optional) .bracket .optional os _ :=
      hos.accounts rfl (by decide) rfl
    have hfront : ((s.element .optional).run os).front = .optional :=
      hoptional.front.trans (ite_self _)
    have hrequired : AccountsGroups ((s.element .optional).run os) .brace .required rs _ :=
      hrs.accounts (by rw [hfront]; rfl) (by decide) rfl
    refine .command ht hoptional hrequired ha (tail.accounts ?_ ?_)
    · rw [hrequired.opened, hoptional.opened]
      exact hadd
    · intro d hd
      rw [hrequired.front, hfront]
      cases d with
      | brace => exact absurd hd hr
      | bracket =>
        -- A bracket can follow required arguments only; it is none of them.
        have hne : rs ≠ [] := by
          rintro rfl
          exact ho hd
        rw [if_neg hne]
        rfl

theorem Group.accounts {d : Delimiter} {gs : List Token} {children : List Node} {k : Nat}
    (h : Group d gs children k) (s : Survey) : AccountsGroup s d gs children := by
  match h with
  | .enclosed ho body hc => exact .enclosed ho hc (body.accounts rfl fun _ _ => rfl)

theorem Groups.accounts {d : Delimiter} {ts : List Token} {lists : List (List Node)} {k : Nat}
    (h : Groups d ts lists k) {s : Survey} {role : Role} (hs : s.front.opening d = role)
    (hb : role ≠ .bare) (hr : role.opening d = role) : AccountsGroups s d role ts lists := by
  match h with
  | .nil => exact ⟨rfl, rfl, rfl⟩
  | .cons first tail =>
    have hgroup := first.accounts s
    refine .cons hgroup first.opensWith hs hb (tail.accounts ?_ hb hr)
    rw [hgroup.front, hs, hr]

end

end Grammar

def survey (ts : List Token) : Survey := Survey.start.run ts

theorem survey_of_parse {source : String} {limit : Int} {document : Node}
    (h : parse (tokenize source) limit = .ok document) :
    (survey (tokenize source)).opened = [] ∧
      document.flatten.length + (survey (tokenize source)).weight = (tokenize source).length := by
  obtain ⟨ts, e, nodes, k, htokens, he, rfl, helements⟩ := elements_of_parse_tokenize h
  have haccounts : Grammar.Accounts Survey.start ts nodes :=
    helements.accounts rfl fun _ _ => rfl
  have hend : survey (tokenize source) = Survey.start.run ts := by
    rw [htokens, survey, Survey.run_append]
    simp only [Survey.run, List.foldl_cons, List.foldl_nil, Survey.step, he]
  have hweight : _ = 0 + ts.length := haccounts.weight
  rw [hend, haccounts.opened, htokens, Node.flatten, List.length_append, List.length_cons,
    List.length_singleton]
  refine ⟨rfl, ?_⟩
  rw [size] at hweight
  omega

theorem Enclosure.dissolves_eq_false_iff (e : Enclosure) :
    ¬ e.dissolves = true ↔ e.role ≠ .optional ∧ ¬ (e.role = .required ∧ e.elements = 1) := by
  simp [dissolves]

/-- Every token of a source that is read gives a node, closes nothing, or bounds a group. So there
are no more nodes than tokens, and exactly those groups are missing among the nodes that dissolve in
a command. -/
theorem nodes_and_groups_of_tokens {c : Compiler} {source : String} {document : Node}
    (h : (c.parseResult (.str source)).1 = .ok (.ok document)) :
    ∃ stats seen, (c.parseResult (.str source)).2.stats = stats ∧
      survey (tokenize source) = seen ∧ seen.opened = [] ∧
      stats.nodes + seen.strays + seen.closed.length ≤ stats.tokens ∧
      (stats.nodes + seen.strays + seen.closed.length = stats.tokens ↔
        ∀ e ∈ seen.closed, e.role ≠ .optional ∧ ¬ (e.role = .required ∧ e.elements = 1)) ∧
      stats.nodes ≤ stats.tokens := by
  rw [Compiler.parseResult_str] at h
  have hparse : parse (tokenize source) nestingLimit = .ok document := Except.ok.inj h
  obtain ⟨hopened, hcount⟩ := survey_of_parse hparse
  have hnodes : (readSource source).2.nodes = document.flatten.length := by
    simp only [readSource, hparse]
  have htokens : (readSource source).2.tokens = (tokenize source).length := by
    simp only [readSource, hparse]
  rw [← hnodes, ← htokens, Survey.weight] at hcount
  refine ⟨(readSource source).2, _, rfl, rfl, hopened, by omega, ?_, by omega⟩
  have hnone : (survey (tokenize source)).closed.countP Enclosure.dissolves = 0 ↔
      ∀ e ∈ (survey (tokenize source)).closed,
        e.role ≠ .optional ∧ ¬ (e.role = .required ∧ e.elements = 1) := by
    rw [List.countP_eq_zero]
    exact forall₂_congr fun e _ => e.dissolves_eq_false_iff
  rw [← hnone]
  omega

def mixedGroups : String := "\\a[x]\x7by\x7d\x7b\x7d]\x7bz\x7d"

theorem nodes_and_groups_of_tokens_mixed :
    ∃ document stats,
      (Compiler.parseResult ⟨.default, .zero⟩ (.str mixedGroups)).1 = .ok (.ok document) ∧
      (Compiler.parseResult ⟨.default, .zero⟩ (.str mixedGroups)).2.stats = stats ∧
      (survey (tokenize mixedGroups)).strays = 1 ∧
      (survey (tokenize mixedGroups)).closed = [⟨.brace, .bare, 1⟩, ⟨.brace, .required, 0⟩,
        ⟨.brace, .required, 1⟩, ⟨.bracket, .optional, 1⟩] ∧
      stats.nodes + 1 + 4 ≤ stats.tokens ∧ stats.nodes + 1 + 4 ≠ stats.tokens := by
  have hread : (parse (tokenize mixedGroups) nestingLimit).map (fun _ => ()) = .ok () := by
    decide +kernel
  have hstrays : (survey (tokenize mixedGroups)).strays = 1 := by decide +kernel
  have hclosed : (survey (tokenize mixedGroups)).closed = [⟨.brace, .bare, 1⟩,
      ⟨.brace, .required, 0⟩, ⟨.brace, .required, 1⟩, ⟨.bracket, .optional, 1⟩] := by
    decide +kernel
  obtain ⟨document, hparse, -⟩ := exists_ok_of_map_eq_ok hread
  have hresult : (Compiler.parseResult ⟨.default, .zero⟩ (.str mixedGroups)).1 =
      .ok (.ok document) := by
    rw [Compiler.parseResult_str, hparse]
  obtain ⟨stats, seen, hstats, rfl, -, hle, hiff, -⟩ := nodes_and_groups_of_tokens hresult
  rw [hstrays, hclosed] at hle hiff
  refine ⟨document, stats, hresult, hstats, hstrays, hclosed, hle, ?_⟩
  intro heq
  exact (hiff.mp heq ⟨.bracket, .optional, 1⟩ (by decide)).1 rfl

end TexHtml
