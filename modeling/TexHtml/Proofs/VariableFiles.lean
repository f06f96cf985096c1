import Mathlib.Data.List.DropRight
import TexHtml.Proofs.Utf8
import TexHtml.Proofs.Variables

namespace TexHtml.Text

theorem trim_eq_rdropWhile (p : Char → Bool) (s : List Char) :
    trim p s = (s.dropWhile p).rdropWhile p :=
  rfl

theorem trim_eq_self {p : Char → Bool} {s : List Char} (hhead : ∀ c, s.head? = some c → p c = false)
    (hlast : ∀ c, s.getLast? = some c → p c = false) : trim p s = s := by
  have hstart : s.dropWhile p = s := by
    cases s with
    | nil => rfl
    | cons c s => rw [List.dropWhile_cons, hhead c rfl, if_neg Bool.false_ne_true]
  rw [trim_eq_rdropWhile, hstart, List.rdropWhile_eq_self_iff]
  intro hne
  rw [Bool.not_eq_true]
  exact hlast _ (List.getLast?_eq_some_getLast hne)

theorem trim_of_all {p : Char → Bool} {s : List Char} (h : ∀ c ∈ s, p c) : trim p s = [] := by
  rw [trim_eq_rdropWhile, List.dropWhile_eq_nil_iff.mpr h]
  rfl

theorem trim_subset (p : Char → Bool) (s : List Char) : trim p s ⊆ s := by
  rw [trim_eq_rdropWhile]
  exact ((List.rdropWhile_prefix p _).sublist.trans (List.dropWhile_sublist p)).subset

theorem head?_trim {p : Char → Bool} {margin rest : List Char} {c : Char}
    (hmargin : ∀ d ∈ margin, p d)
    (hc : p c = false) : (trim p (margin ++ c :: rest)).head? = some c := by
  have hstart : (margin ++ c :: rest).dropWhile p = c :: rest := by
    rw [List.dropWhile_append_of_pos hmargin, List.dropWhile_cons, hc, if_neg Bool.false_ne_true]
  rw [trim_eq_rdropWhile, hstart]
  cases hkept : (c :: rest).rdropWhile p with
  | nil =>
    have hall := List.rdropWhile_eq_nil_iff.mp hkept c List.mem_cons_self
    rw [hc] at hall
    cases hall
  | cons d kept =>
    have hkeeps := hkept ▸ List.rdropWhile_prefix p (c :: rest)
    rw [(List.cons_prefix_cons.mp hkeeps).1]
    rfl

theorem trim_between {p : Char → Bool} {mark : Char} {s : List Char} (hmark : p mark)
    (hhead : ∀ c, s.head? = some c → p c = false)
    (hlast : ∀ c, s.getLast? = some c → p c = false) : trim p (mark :: s ++ [mark]) = s := by
  have hsame := trim_eq_self hhead hlast
  rw [trim_eq_rdropWhile] at hsame ⊢
  rw [List.cons_append, List.dropWhile_cons, if_pos hmark]
  cases s with
  | nil => simp [List.rdropWhile, hmark]
  | cons c s =>
    rw [List.dropWhile_cons, hhead c rfl, if_neg Bool.false_ne_true] at hsame
    rw [List.cons_append, List.dropWhile_cons, hhead c rfl, if_neg Bool.false_ne_true,
      ← List.cons_append, List.rdropWhile_concat_pos _ _ _ hmark, hsame]

def OneLine (s : List Char) : Prop := '\n' ∉ s ∧ '\r' ∉ s

theorem OneLine.tail {c : Char} {s : List Char} (h : OneLine (c :: s)) : OneLine s :=
  ⟨fun hmem => h.1 (List.mem_cons_of_mem c hmem), fun hmem => h.2 (List.mem_cons_of_mem c hmem)⟩

theorem OneLine.head {c : Char} {s : List Char} (h : OneLine (c :: s)) : c ≠ '\n' ∧ c ≠ '\r' :=
  ⟨fun hc => h.1 (hc ▸ List.mem_cons_self), fun hc => h.2 (hc ▸ List.mem_cons_self)⟩

theorem unifyNewlines_append {s : List Char} (h : OneLine s) (rest : List Char) :
    unifyNewlines (s ++ rest) = s ++ unifyNewlines rest := by
  induction s with
  | nil => rfl
  | cons c s ih =>
    rw [List.cons_append, unifyNewlines, ih h.tail, List.cons_append]
    · exact fun _ hc _ => h.head.2 hc
    · exact h.head.2

theorem splitNewlines_of_oneLine {s : List Char} (h : OneLine s) : splitNewlines s = [s] := by
  induction s with
  | nil => rfl
  | cons c s ih => rw [splitNewlines, if_neg h.head.1, ih h.tail]

theorem splitNewlines_append {s : List Char} (h : OneLine s) (rest : List Char) :
    splitNewlines (s ++ '\n' :: rest) = s :: splitNewlines rest := by
  induction s with
  | nil => rw [List.nil_append, splitNewlines, if_pos rfl]
  | cons c s ih => rw [List.cons_append, splitNewlines, if_neg h.head.1, ih h.tail]

inductive LineEnd where
  | newline
  | carriageReturn
  | both
  deriving DecidableEq

def LineEnd.text : LineEnd → List Char
  | newline => ['\n']
  | carriageReturn => ['\r']
  | both => ['\r', '\n']

theorem lines_of_oneLine {s : List Char} (h : OneLine s) : lines s = [s] := by
  have hunified := unifyNewlines_append h []
  rw [List.append_nil, unifyNewlines, List.append_nil] at hunified
  rw [lines, hunified, splitNewlines_of_oneLine h]

theorem lines_append_newline {s : List Char} (h : OneLine s) (rest : List Char) :
    lines (s ++ '\n' :: rest) = s :: lines rest := by
  rw [lines, unifyNewlines_append h, unifyNewlines, splitNewlines_append h, lines]
  · exact fun _ hc _ => absurd hc (by decide)
  · decide

theorem lines_append_both {s : List Char} (h : OneLine s) (rest : List Char) :
    lines (s ++ '\r' :: '\n' :: rest) = s :: lines rest := by
  rw [lines, unifyNewlines_append h, unifyNewlines, splitNewlines_append h, lines]

theorem lines_append_return {s rest : List Char} (h : OneLine s)
    (hrest : ∀ tail, rest ≠ '\n' :: tail) :
    lines (s ++ '\r' :: rest) = s :: lines rest := by
  rw [lines, unifyNewlines_append h, unifyNewlines, splitNewlines_append h, lines]
  exact hrest

theorem filterMap_lines_append {β : Type} {f : List Char → Option β} (hf : f [] = none)
    {s : List Char} (h : OneLine s) (e : LineEnd) (rest : List Char) :
    (lines (s ++ (e.text ++ rest))).filterMap f = (f s).toList ++ (lines rest).filterMap f := by
  have hcons : (s :: lines rest).filterMap f = (f s).toList ++ (lines rest).filterMap f := by
    rw [List.filterMap_cons]
    cases f s <;> rfl
  cases e with
  | newline => exact (congrArg _ (lines_append_newline h rest)).trans hcons
  | both => exact (congrArg _ (lines_append_both h rest)).trans hcons
  | carriageReturn =>
    -- A newline that comes next joins the line end, and the empty line that it would end is lost.
    by_cases hrest : ∃ tail, rest = '\n' :: tail
    · obtain ⟨tail, rfl⟩ := hrest
      have hempty : lines ('\n' :: tail) = [] :: lines tail :=
        lines_append_newline ⟨List.not_mem_nil, List.not_mem_nil⟩ tail
      have hskip : (lines ('\n' :: tail)).filterMap f = (lines tail).filterMap f := by
        rw [hempty, List.filterMap_cons_none hf]
      rw [← hcons, List.filterMap_cons, hskip, ← List.filterMap_cons]
      exact congrArg _ (lines_append_both h tail)
    · exact (congrArg _ (lines_append_return h (not_exists.mp hrest))).trans hcons

end TexHtml.Text

namespace TexHtml.Dotenv

theorem splitAtEquals_append {name : List Char} (h : '=' ∉ name) (rest : List Char) :
    splitAtEquals (name ++ '=' :: rest) = some (name, rest) := by
  induction name with
  | nil => rw [List.nil_append, splitAtEquals, if_pos rfl]
  | cons c name ih =>
    have hc : c ≠ '=' := fun hc => h (hc ▸ List.mem_cons_self)
    rw [List.cons_append, splitAtEquals, if_neg hc, ih fun hmem => h (List.mem_cons_of_mem c hmem)]
    rfl

theorem splitAtEquals_eq_none {s : List Char} (h : '=' ∉ s) : splitAtEquals s = none := by
  induction s with
  | nil => rfl
  | cons c s ih =>
    have hc : c ≠ '=' := fun hc => h (hc ▸ List.mem_cons_self)
    rw [splitAtEquals, if_neg hc, ih fun hmem => h (List.mem_cons_of_mem c hmem)]
    rfl

structure IsName (s : List Char) : Prop where
  ne_nil : s ≠ []
  oneLine : Text.OneLine s
  equals_not_mem : '=' ∉ s
  head : ∀ c, s.head? = some c → Text.isBlank c = false ∧ c ≠ '#'
  last : ∀ c, s.getLast? = some c → Text.isBlank c = false

structure IsValue (s : List Char) : Prop where
  oneLine : Text.OneLine s
  head : s.head? ≠ some '"'
  last : s.getLast? ≠ some '"'

inductive Idle : List Char → Prop
  | comment {margin : List Char} (text : List Char) (h : ∀ c ∈ margin, Text.isBlank c) :
      Idle (margin ++ '#' :: text)
  | blank {s : List Char} (h : ∀ c ∈ s, Text.isBlank c) : Idle s
  | noEquals {s : List Char} (h : '=' ∉ s) : Idle s

inductive Line where
  | setting (name value : String) (hname : IsName name.toList) (hvalue : IsValue value.toList)
  | idle (s : List Char) (hline : Text.OneLine s) (hidle : Idle s)

namespace Line

def text : Line → List Char
  | setting name value _ _ => name.toList ++ '=' :: ('"' :: value.toList ++ ['"'])
  | idle s _ _ => s

def setting? : Line → Option (String × String)
  | setting name value _ _ => some (name, value)
  | idle _ _ _ => none

theorem oneLine_text (l : Line) : Text.OneLine l.text := by
  cases l with
  | setting name value hname hvalue =>
    constructor
    · simp [text, hname.oneLine.1, hvalue.oneLine.1]
    · simp [text, hname.oneLine.2, hvalue.oneLine.2]
  | idle s hline hidle => exact hline

end Line

theorem assignment?_setting {name value : String} (hname : IsName name.toList)
    (hvalue : IsValue value.toList) :
    assignment? (name.toList ++ '=' :: ('"' :: value.toList ++ ['"'])) = some (name, value) := by
  obtain ⟨first, rest, hfirst⟩ := List.exists_cons_of_ne_nil hname.ne_nil
  have hhead (c : Char)
      (hc : (name.toList ++ '=' :: ('"' :: value.toList ++ ['"'])).head? = some c) :
      Text.isBlank c = false ∧ c ≠ '#' := by
    apply hname.head
    rw [hfirst] at hc ⊢
    exact hc
  have hlast (c : Char)
      (hc : (name.toList ++ '=' :: ('"' :: value.toList ++ ['"'])).getLast? = some c) :
      Text.isBlank c = false := by
    rw [← List.cons_append, ← List.append_assoc, List.getLast?_concat] at hc
    cases hc
    decide
  have hquoted : Text.trim Text.isBlank ('"' :: value.toList ++ ['"']) =
      '"' :: value.toList ++ ['"'] := by
    apply Text.trim_eq_self
    · rintro c ⟨⟩
      decide
    · intro c hc
      rw [List.getLast?_concat] at hc
      cases hc
      decide
  have hbare : Text.trim (· = '"') ('"' :: value.toList ++ ['"']) = value.toList := by
    apply Text.trim_between (by decide)
    · rintro c hc
      simpa using fun h : c = '"' => hvalue.head (h ▸ hc)
    · rintro c hc
      simpa using fun h : c = '"' => hvalue.last (h ▸ hc)
  have hcomment : (name.toList ++ '=' :: ('"' :: value.toList ++ ['"'])).head? ≠ some '#' :=
    fun h => (hhead '#' h).2 rfl
  rw [assignment?, Text.trim_eq_self (fun c hc => (hhead c hc).1) hlast]
  dsimp only
  rw [if_neg hcomment, splitAtEquals_append hname.equals_not_mem, Option.map_some, hquoted, hbare,
    Text.trim_eq_self (fun c hc => (hname.head c hc).1) hname.last, String.ofList_toList,
    String.ofList_toList]

theorem assignment?_idle {s : List Char} (h : Idle s) : assignment? s = none := by
  rw [assignment?]
  dsimp only
  split
  · rfl
  · rename_i hhead
    cases h with
    | comment text hmargin => exact absurd (Text.head?_trim hmargin (by decide)) hhead
    | blank hblank => rw [Text.trim_of_all hblank]; rfl
    | noEquals hequals =>
      have htrim : '=' ∉ Text.trim Text.isBlank s := fun hmem =>
        hequals (Text.trim_subset Text.isBlank s hmem)
      rw [splitAtEquals_eq_none htrim]
      rfl

theorem assignment?_text (l : Line) : assignment? l.text = l.setting? := by
  cases l with
  | setting name value hname hvalue => exact assignment?_setting hname hvalue
  | idle s hline hidle => exact assignment?_idle hidle

structure File where
  lines : List (Line × Text.LineEnd)
  unended : Option Line

namespace File

def text (f : File) : List Char :=
  f.lines.flatMap (fun l => l.1.text ++ l.2.text) ++ f.unended.elim [] Line.text

def settings (f : File) : List (String × String) :=
  (f.lines.map Prod.fst ++ f.unended.toList).filterMap Line.setting?

theorem assignments_text (f : File) :
    (Text.lines f.text).filterMap assignment? = f.settings := by
  obtain ⟨ls, unended⟩ := f
  induction ls with
  | nil =>
    cases unended with
    | none => rfl
    | some l =>
      change (Text.lines l.text).filterMap assignment? = [l].filterMap Line.setting?
      rw [Text.lines_of_oneLine l.oneLine_text, List.filterMap_cons, assignment?_text,
        List.filterMap_cons]
      rfl
  | cons l ls ih =>
    have hrest : text ⟨l :: ls, unended⟩ = l.1.text ++ (l.2.text ++ text ⟨ls, unended⟩) := by
      simp [text]
    have hempty : assignment? [] = none := rfl
    have hsettings : settings ⟨l :: ls, unended⟩ =
        l.1.setting?.toList ++ settings ⟨ls, unended⟩ := by
      rw [settings, List.map_cons, List.cons_append, List.filterMap_cons]
      cases l.1.setting? <;> rfl
    rw [hrest, Text.filterMap_lines_append hempty l.1.oneLine_text, ih, assignment?_text, hsettings]

end File

end TexHtml.Dotenv

namespace TexHtml.Environment

theorem put_of_not_mem {env : Environment} {name : String} (h : name ∉ env.names) (value : String) :
    env.put name value = env ++ [(name, value)] := by
  induction env with
  | nil => rfl
  | cons p env ih =>
    obtain ⟨first, v⟩ := p
    rw [names, List.map_cons, List.mem_cons, not_or] at h
    rw [put, if_neg (Ne.symm h.1), ih h.2, List.cons_append]

theorem ofPairs_of_nodup {pairs : List (String × String)} (h : (pairs.map Prod.fst).Nodup) :
    ofPairs pairs = pairs := by
  induction pairs using List.reverseRecOn with
  | nil => rfl
  | append_singleton pairs p ih =>
    rw [List.map_append, List.nodup_append] at h
    obtain ⟨hpairs, -, hfresh⟩ := h
    rw [ofPairs_concat, ih hpairs, put_of_not_mem]
    exact fun hmem => hfresh p.1 hmem p.1 List.mem_cons_self rfl

end TexHtml.Environment

namespace TexHtml.Dotenv

theorem isFile_of_read {disk : Disk} {path : String} {octets : List UInt8}
    (h : disk.read path = .ok octets) : disk.isFile path := by
  rw [Disk.read] at h
  rw [Disk.isFile]
  split at h
  · cases h
  · cases h
  · cases h
  · cases h
  · rename_i hfind
    rw [hfind]
    rfl

/-- The variables of a file that was written with their values in quotation marks, whatever lines
stand between them and however the lines end. -/
theorem load_written_file (disk : Disk) (env : Environment) (path : String) (f : File)
    (hfile : disk.read path = .ok (Text.Utf8.encode f.text))
    (hdistinct : (f.settings.map Prod.fst).Nodup) :
    load disk env path false = ⟨[], env, .ok f.settings⟩ := by
  have hread : read f.text = f.settings := by
    rw [read, f.assignments_text, Environment.ofPairs_of_nodup hdistinct]
  rw [load, isFile_of_read hfile, hfile]
  dsimp only
  rw [Text.Utf8.decodeInBlocks_encode]
  dsimp only
  rw [hread]
  rfl

def sampleFile : File where
  lines :=
    [(.setting "K 1" " # = "
        ⟨by decide, ⟨by decide, by decide⟩, by decide, by rintro c ⟨⟩; decide,
          by rintro c ⟨⟩; decide⟩
        ⟨⟨by decide, by decide⟩, by decide, by decide⟩, .carriageReturn),
     (.idle [] ⟨by decide, by decide⟩ (.noEquals (by decide)), .newline),
     (.idle "\t#L=\"2\"".toList ⟨by decide, by decide⟩
        (@Idle.comment ['\t'] "L=\"2\"".toList (List.forall_mem_singleton.mpr (by decide))), .both)]
  unended := some (.setting "é" ""
    ⟨by decide, ⟨by decide, by decide⟩, by decide, by rintro c ⟨⟩; decide,
      by rintro c ⟨⟩; decide⟩
    ⟨⟨by decide, by decide⟩, by decide, by decide⟩)

theorem load_written_file_sample :
    sampleFile.text = "K 1=\" # = \"\r\n\t#L=\"2\"\r\né=\"\"".toList ∧
      load (Settings.diskOfVariables (String.ofList sampleFile.text)) [] ".env" false =
        ⟨[], [], .ok [("K 1", " # = "), ("é", "")]⟩ := by
  refine ⟨by decide +kernel, ?_⟩
  apply load_written_file _ _ _ sampleFile
  · exact Settings.eq_ok_of_toOption (by decide +kernel)
  · decide

end TexHtml.Dotenv
