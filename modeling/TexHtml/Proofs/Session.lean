import Mathlib.Data.List.Induction
import TexHtml.Compiler.Session
import TexHtml.Proofs.Fragment

namespace TexHtml

def Call.source? : Call → Option Value
  | compile source => some source
  | parse source => some source
  | parseResult source => some source
  | validate source => some source
  | outline source => some source
  | stats => none

def Call.text? (call : Call) : Option String := call.source?.bind Value.str?

theorem Html.exists_renderDocument {options : Options} {script : String}
    (h : options.script = .str script) (document : Node) :
    ∃ html, renderDocument options document = .ok html := by
  cases hi : options.injecting with
  | false => exact ⟨render options.escaping document, by simp [renderDocument, hi]⟩
  | true =>
    refine ⟨injectScript script (render options.escaping document), ?_⟩
    simp [renderDocument, hi, h]

theorem stats_of_readSource_error {source : String} {e : ParseError}
    (h : (readSource source).1 = .error e) :
    (readSource source).2 = ⟨(tokenize source).length, 0, 0, [], [e.message]⟩ := by
  rw [readSource] at h ⊢
  split at h
  · cases h
  · cases h
    rfl

namespace Compiler

section Entries

variable (c : Compiler) (source : Value)

theorem parse_eq :
    c.parse source =
      ((c.parseResult source).1.bind (·.mapError .parse), (c.parseResult source).2) := by
  rw [parse]
  obtain ⟨r, c'⟩ := c.parseResult source
  cases r with
  | error e => rfl
  | ok result => cases result <;> rfl

theorem outline_eq :
    c.outline source = ((c.parse source).1.map Node.outline, (c.parse source).2) := by
  rw [outline]
  obtain ⟨r, c'⟩ := c.parse source
  cases r <;> rfl

theorem compile_eq :
    c.compile source =
      ((c.parse source).1.bind fun document =>
        (Html.renderDocument (c.parse source).2.options document).mapError .misuse,
      (c.parse source).2) := by
  rw [compile]
  obtain ⟨r, c'⟩ := c.parse source
  cases r <;> rfl

theorem validate_snd : (c.validate source).2 = (c.parseResult source).2 := by
  rw [validate]
  obtain ⟨r, c'⟩ := c.parseResult source
  cases r <;> rfl

theorem options_parseResult : (c.parseResult source).2.options = c.options := by
  cases source <;> rfl

theorem options_parse : (c.parse source).2.options = c.options := by
  rw [parse_eq]
  exact c.options_parseResult source

end Entries

section Steps

variable (c : Compiler) (call : Call)

theorem answer_snd_eq_parseResult :
    (c.answer call).2 = call.source?.elim c fun source => (c.parseResult source).2 := by
  cases call with
  | compile source =>
    calc
      (c.compile source).2 = (c.parse source).2 := congrArg Prod.snd (c.compile_eq source)
      _ = (c.parseResult source).2 := congrArg Prod.snd (c.parse_eq source)
  | parse source => exact congrArg Prod.snd (c.parse_eq source)
  | parseResult source => rfl
  | validate source => exact c.validate_snd source
  | outline source =>
    calc
      (c.outline source).2 = (c.parse source).2 := congrArg Prod.snd (c.outline_eq source)
      _ = (c.parseResult source).2 := congrArg Prod.snd (c.parse_eq source)
  | stats => rfl

theorem answer_snd :
    (c.answer call).2 =
      call.text?.elim c fun source => { c with stats := (readSource source).2 } := by
  rw [answer_snd_eq_parseResult, Call.text?]
  cases call.source? with
  | none => rfl
  | some source => cases source <;> rfl

theorem options_answer : (c.answer call).2.options = c.options := by
  rw [answer_snd]
  cases call.text? <;> rfl

variable {c} in
theorem answer_fst_congr {d : Compiler} (h : c.options = d.options) (hcall : call ≠ .stats) :
    (c.answer call).1 = (d.answer call).1 := by
  have hresult (source : Value) : (c.parseResult source).1 = (d.parseResult source).1 := by
    cases source <;> rfl
  have hparse (source : Value) : (c.parse source).1 = (d.parse source).1 := by
    rw [parse_eq, parse_eq, hresult]
  have hcompile (source : Value) : (c.compile source).1 = (d.compile source).1 := by
    rw [compile_eq, compile_eq, options_parse, options_parse, hparse, h]
  have houtline (source : Value) : (c.outline source).1 = (d.outline source).1 := by
    rw [outline_eq, outline_eq, hparse]
  cases call with
  | compile source => exact congrArg Answer.html (hcompile source)
  | parse source => exact congrArg Answer.document (hparse source)
  | parseResult source => exact congrArg Answer.parsed (hresult source)
  | validate source =>
    -- A report reads the statistics, but those that its own call has put there.
    cases source <;> rfl
  | outline source => exact congrArg Answer.outline (houtline source)
  | stats => exact absurd rfl hcall

end Steps

section Runs

variable (c : Compiler)

theorem answers_cons (call : Call) (calls : List Call) :
    c.answers (call :: calls) =
      ((c.answer call).1 :: ((c.answer call).2.answers calls).1,
        ((c.answer call).2.answers calls).2) := rfl

theorem answers_append (before after : List Call) :
    c.answers (before ++ after) =
      ((c.answers before).1 ++ ((c.answers before).2.answers after).1,
        ((c.answers before).2.answers after).2) := by
  induction before generalizing c with
  | nil => rfl
  | cons call before ih => rw [List.cons_append, answers_cons, ih, answers_cons, List.cons_append]

theorem options_answers (calls : List Call) : (c.answers calls).2.options = c.options := by
  induction calls generalizing c with
  | nil => rfl
  | cons call calls ih => exact (ih (c.answer call).2).trans (c.options_answer call)

theorem getElem?_answers (calls : List Call) (i : Nat) :
    (c.answers calls).1[i]? =
      calls[i]?.map fun call => ((c.answers (calls.take i)).2.answer call).1 := by
  induction calls generalizing c i with
  | nil => rfl
  | cons call calls ih =>
    cases i with
    | zero => rfl
    | succ i => exact ih (c.answer call).2 i

theorem length_answers (calls : List Call) : (c.answers calls).1.length = calls.length := by
  induction calls generalizing c with
  | nil => rfl
  | cons call calls ih => exact congrArg Nat.succ (ih (c.answer call).2)

/-- The statistics after the last of the calls that reads a text, had it been the only one. -/
def lastStats (calls : List Call) : Stats :=
  (calls.filter (·.text?.isSome)).getLast?.elim .zero fun call => (c.answer call).2.stats

variable {c} in
theorem stats_answers (hfresh : c.stats = .zero) (calls : List Call) :
    (c.answers calls).2.stats = c.lastStats calls := by
  -- The last call that reads decides, so the calls grow at their end.
  induction calls using List.reverseRecOn with
  | nil => exact hfresh
  | append_singleton calls call ih =>
    have hlast : (c.answers (calls ++ [call])).2 = ((c.answers calls).2.answer call).2 := by
      rw [answers_append]
      rfl
    rw [hlast, answer_snd, lastStats, List.filter_append]
    cases htext : call.text? with
    | none =>
      have hskip : [call].filter (·.text?.isSome) = [] := by simp [htext]
      rw [hskip, List.append_nil]
      exact ih
    | some source => simp [htext, answer_snd]

end Runs

def Returns (c : Compiler) (source : String) : Prop :=
  (∃ document, (c.parse (.str source)).1 = .ok document) ∧
    (∃ html, (c.compile (.str source)).1 = .ok html) ∧
    ∃ tree, (c.outline (.str source)).1 = .ok tree

def Refuses (c : Compiler) (source : String) (e : ParseError) : Prop :=
  (c.parseResult (.str source)).1 = .ok (.error e) ∧ (c.parse (.str source)).1 = .error (.parse e) ∧
    (c.compile (.str source)).1 = .error (.parse e) ∧
    (c.outline (.str source)).1 = .error (.parse e)

structure Agreement (c : Compiler) (source : String) (report : Report) : Prop where
  validate : (c.validate (.str source)).1 = .ok report
  valid_iff_result :
    report.valid = true ↔ ∃ document, (c.parseResult (.str source)).1 = .ok (.ok document)
  valid_iff_returns : report.valid = true ↔ c.Returns source
  refused : report.valid = false → ∃ e, c.Refuses source e ∧ report.errors = [e.message] ∧
    report.stats = ⟨(tokenize source).length, 0, 0, [], [e.message]⟩
  stats : ∀ call, call.text? = some source → (c.answer call).2.stats = report.stats

section Agreement

variable {c : Compiler} {source : String}

theorem returns_of_parse {script : String} {document : Node} (hs : c.options.script = .str script)
    (h : (c.parse (.str source)).1 = .ok document) : c.Returns source := by
  obtain ⟨html, hhtml⟩ := Html.exists_renderDocument hs document
  refine ⟨⟨document, h⟩, ⟨html, ?_⟩, ⟨document.outline, ?_⟩⟩
  · rw [compile_eq, options_parse, h]
    exact congrArg (Except.mapError Fault.misuse) hhtml
  · rw [outline_eq, h]
    rfl

theorem refuses_of_parseResult {e : ParseError}
    (h : (c.parseResult (.str source)).1 = .ok (.error e)) : c.Refuses source e := by
  have hparse : (c.parse (.str source)).1 = .error (.parse e) := by
    rw [parse_eq, h]
    rfl
  refine ⟨h, hparse, ?_, ?_⟩
  · rw [compile_eq, hparse]
    rfl
  · rw [outline_eq, hparse]
    rfl

theorem exists_agreement {script : String} (hs : c.options.script = .str script)
    (source : String) : ∃ report, c.Agreement source report := by
  have hstats (call : Call) (h : call.text? = some source) :
      (c.answer call).2.stats = (readSource source).2 := by
    rw [answer_snd, h]
    rfl
  have hvalidate : (c.validate (.str source)).1 =
      .ok ⟨(readSource source).1.toOption.isSome, (readSource source).2.errors,
        (readSource source).2.unknown.map ("Unknown command: " ++ ·), (readSource source).2⟩ := rfl
  have hresult : (c.parseResult (.str source)).1 = .ok (readSource source).1 := rfl
  cases hread : (readSource source).1 with
  | ok document =>
    rw [hread] at hresult hvalidate
    have hparse : (c.parse (.str source)).1 = .ok document := by
      rw [parse_eq, hresult]
      rfl
    have hreturns : c.Returns source := returns_of_parse hs hparse
    exact ⟨_, hvalidate, ⟨fun _ => ⟨document, hresult⟩, fun _ => rfl⟩,
      ⟨fun _ => hreturns, fun _ => rfl⟩, fun h => Bool.noConfusion h, hstats⟩
  | error e =>
    rw [hread] at hresult hvalidate
    have hrefuses : c.Refuses source e := refuses_of_parseResult hresult
    refine ⟨_, hvalidate, ⟨fun h => Bool.noConfusion h, ?_⟩, ⟨fun h => Bool.noConfusion h, ?_⟩,
      fun _ => ⟨e, hrefuses, ?_, stats_of_readSource_error hread⟩, hstats⟩
    · rintro ⟨document, hdocument⟩
      rw [hresult] at hdocument
      cases Except.ok.inj hdocument
    · rintro ⟨⟨document, hdocument⟩, -, -⟩
      rw [hrefuses.2.1] at hdocument
      cases hdocument
    · rw [stats_of_readSource_error hread]

end Agreement

theorem stats_of_create {options : Value} {c : Compiler} (h : create options = .ok c) :
    c.stats = .zero := by
  rw [create] at h
  split at h
  · cases h
    rfl
  · cases h

theorem answers_afresh {options : Value} {c : Compiler} {script : String}
    (hc : create options = .ok c) (hs : c.options.script = .str script) (calls : List Call) :
    (c.answers calls).1.length = calls.length ∧
      (∀ (i : Nat) (call : Call), calls[i]? = some call → call ≠ .stats →
        (c.answers calls).1[i]? = some (c.answer call).1) ∧
      (∀ i : Nat, calls[i]? = some .stats →
        (c.answers calls).1[i]? = some (.stats (c.lastStats (calls.take i)))) ∧
      (c.answers calls).2.stats = c.lastStats calls ∧
      ∀ source, ∃ report, (c.answers calls).2.Agreement source report := by
  have hfresh := stats_of_create hc
  refine ⟨c.length_answers calls, ?_, ?_, stats_answers hfresh calls, ?_⟩
  · intro i call hi hcall
    rw [getElem?_answers, hi, Option.map_some]
    exact congrArg some (answer_fst_congr call (c.options_answers _) hcall)
  · intro i hi
    rw [getElem?_answers, hi, Option.map_some, ← stats_answers hfresh]
    rfl
  · apply exists_agreement
    rw [options_answers]
    exact hs

theorem answers_afresh_interleaved :
    ∃ c calls, create (.table [(.str "math_script", .str "<s>")]) = .ok c ∧
      c.options.script = .str "<s>" ∧
      calls = [.compile (.str "a\\b\x7bc"), .validate (.int 3), .stats,
        .parse (.str "\\b\x7b\\b\x7d"), .outline (.int 3)] ∧
      (c.answers calls).1[2]? =
        some (.stats ⟨5, 0, 0, [], ["Expected '\x7d' at line 1, column 4 (offset 3)"]⟩) ∧
      (c.answers calls).1[3]? = some (c.answer (.parse (.str "\\b\x7b\\b\x7d"))).1 ∧
      (c.answers calls).2.stats = ⟨5, 3, 2, ["b"], []⟩ ∧
      ∃ report, (c.answers calls).2.Agreement "a\\b\x7bc" report ∧ report.valid = false := by
  have hc : create (.table [(.str "math_script", .str "<s>")]) =
      .ok ⟨⟨true, true, .str "<s>"⟩, .zero⟩ := rfl
  have hinvalid : (TexHtml.parse (tokenize "a\\b\x7bc") nestingLimit).toOption.isSome = false := by
    decide +kernel
  obtain ⟨-, hanswer, hstats, hlast, hagreement⟩ := answers_afresh hc rfl
    [.compile (.str "a\\b\x7bc"), .validate (.int 3), .stats, .parse (.str "\\b\x7b\\b\x7d"),
      .outline (.int 3)]
  obtain ⟨report, hreport⟩ := hagreement "a\\b\x7bc"
  refine ⟨_, _, hc, rfl, rfl, ?_, hanswer 3 _ rfl nofun, ?_, report, hreport, ?_⟩
  · rw [hstats 2 rfl]
    exact congrArg (some ∘ Answer.stats) (by decide +kernel)
  · rw [hlast]
    decide +kernel
  · cases hvalid : report.valid with
    | false => rfl
    | true =>
      obtain ⟨document, hresult⟩ := hreport.valid_iff_result.mp hvalid
      rw [parseResult_str] at hresult
      rw [Except.ok.inj hresult] at hinvalid
      cases hinvalid

end Compiler

end TexHtml
