import Scriptlet.Proofs.Evaluation.Outcome
import Scriptlet.Proofs.Session.Lines

/-! A session as a fold over its lines. Each line turns the variables that the lines before it left
into those for the lines behind it and gives an answer of its own; no line but one that asks for the
end keeps the next from being read. -/

namespace Scriptlet

namespace Script

def onLines : List String → String
  | [] => ""
  | text :: texts => text ++ "\n" ++ onLines texts

theorem lines_eq_onLines (texts : List String) : lines texts = onLines texts := by
  induction texts with
  | nil => rfl
  | cons text texts ih => rw [lines, List.map_cons, String.join_cons, ← lines, ih, onLines]

/-- What is shown of a program: its tokens and its tree if they are asked for and a line for each
value, and apart from these what is wrong with it. -/
def shown (display : DisplayOptions) (source text : String) (e : Evaluation) : Transcript where
  stdout :=
    (if display.showTokens then onLines ((lex source text).tokens.map Token.display) else "") ++
      (if display.showTree then Program.tree (parseText source text).program else "") ++
      onLines (e.values.map Value.display)
  stderr :=
    String.join (e.diagnostics.map (·.reportOn (Report.sourceLines text.toList) display.color))

theorem run_eq (limit : Nat) (display : DisplayOptions) (source text : String) (env : Environment) :
    run limit display source text env =
      (evaluateText limit source text env).map fun (e, after) =>
        ⟨e, after, shown display source text e⟩ := by
  simp only [run, evaluateText, parseText, lines_eq_onLines]
  cases (parse (lex source text).tokens (lex source text).diagnostics).evaluate limit env <;> rfl

end Script

theorem Command.eq_trim_of_parse {line text : String} (h : parse line = .source text) :
    text = String.ofList (Text.trim line.toList) := by
  simp only [parse] at h
  split at h
  all_goals try cases h
  split at h
  · cases h
  · cases h
    rfl

theorem Command.parse_append_lineFeed (line : String) : parse (line ++ "\n") = parse line := by
  have hfeed : (line ++ "\n").toList = line.toList ++ ['\n'] := String.toList_append
  rw [parse, hfeed, Text.trim_append_lineFeed]
  rfl

namespace Repl
variable {display : DisplayOptions} {files : Files}

/-- The program that a line asks for, with the name it goes by: the text of a file, or the line
itself without the white space around it. -/
inductive HasProgram (files : Files) (line : String) : String → String → Prop
  | file {path text} (h : Command.parse line = .loadFile (some path))
      (hfile : files.readText path = .ok text) : HasProgram files line path text
  | typed {text} (h : Command.parse line = .source text) :
      HasProgram files line "<stdin>" (String.ofList (Text.trim line.toList))

inductive Answers (display : DisplayOptions) (files : Files) (env : Environment) (line : String) :
    Environment → Transcript → Prop
  | empty (h : Command.parse line = .empty) : Answers display files env line env {}
  | help (h : Command.parse line = .help) : Answers display files env line env (.print helpText)
  | clear (h : Command.parse line = .clear) :
      Answers display files env line env (.print clearScreen)
  | nameless (h : Command.parse line = .loadFile none) :
      Answers display files env line env (.complain "Usage: loadFile <path>\n")
  | unreadable {path e} (h : Command.parse line = .loadFile (some path))
      (hfile : files.readText path = .error e) :
      Answers display files env line env
        (.complain s!"Error reading file '{path}': {e.message}\n")
  | program {source text limit e after} (h : HasProgram files line source text)
      (hrun : evaluateText limit source text env = some (e, after)) :
      Answers display files env line after (Script.shown display source text e)

inductive Rounds (display : DisplayOptions) (files : Files) :
    Environment → List String → Environment → List Transcript → Prop
  | done {env} : Rounds display files env [] env []
  | line {env line after lines final answer answers}
      (h : Answers display files env line after answer)
      (hrest : Rounds display files after lines final answers) :
      Rounds display files env (line :: lines) final (answer :: answers)

/-- The prompt in front of each answer, and at last the prompt once more, with a farewell if the
user took leave. -/
def record (answers : List Transcript) (left : Bool) : Transcript where
  stdout :=
    String.join (answers.map (prompt ++ ·.stdout)) ++ prompt ++ (if left then farewell else "\n")
  stderr := String.join (answers.map (·.stderr))

theorem record_cons (answer : Transcript) (answers : List Transcript) (left : Bool) :
    record (answer :: answers) left = .print prompt ++ answer ++ record answers left := by
  have hstdout : (record (answer :: answers) left).stdout =
      prompt ++ answer.stdout ++ (record answers left).stdout := by
    simp only [record, List.map_cons, String.join_cons, String.append_assoc]
  have hstderr : (record (answer :: answers) left).stderr =
      "" ++ answer.stderr ++ (record answers left).stderr := by
    simp only [record, List.map_cons, String.join_cons, String.empty_append]
  calc
    record (answer :: answers) left =
        ⟨(record (answer :: answers) left).stdout, (record (answer :: answers) left).stderr⟩ := rfl
    _ = .print prompt ++ answer ++ record answers left := by
      rw [hstdout, hstderr]
      rfl

theorem HasProgram.perform_eq {line source text : String} (h : HasProgram files line source text)
    (limit : Nat) (env : Environment) :
    perform limit display files env (Command.parse line) =
      (evaluateText limit source text env).map fun (e, after) =>
        (after, Script.shown display source text e) := by
  cases h with
  | file h hfile =>
    rw [h, perform, Script.runFile, hfile]
    simp only [Script.run_eq, Option.map_map]
    rfl
  | typed h =>
    rw [h, ← Command.eq_trim_of_parse h, perform, Script.run_eq, Option.map_map]
    rfl

theorem perform_unreadable {path : String} {e : FileError} (h : files.readText path = .error e)
    (limit : Nat) (env : Environment) :
    perform limit display files env (.loadFile (some path)) =
      some (env, unreadableFile path e) := by
  rw [perform, Script.runFile, h]
  rfl

theorem hasProgram_or_answers {line : String} (hexit : Command.parse line ≠ .exit) :
    (∃ source text, HasProgram files line source text) ∨
      ∃ t, ∀ limit env, perform limit display files env (Command.parse line) = some (env, t) ∧
        Answers display files env line env t := by
  cases h : Command.parse line with
  | empty => exact .inr ⟨{}, fun _ _ => ⟨rfl, .empty h⟩⟩
  | help => exact .inr ⟨_, fun _ _ => ⟨rfl, .help h⟩⟩
  | clear => exact .inr ⟨_, fun _ _ => ⟨rfl, .clear h⟩⟩
  | exit => exact absurd h hexit
  | source text => exact .inl ⟨_, _, .typed h⟩
  | loadFile path? =>
    obtain _ | path := path?
    · exact .inr ⟨_, fun _ _ => ⟨rfl, .nameless h⟩⟩
    · cases hfile : files.readText path with
      | ok text => exact .inl ⟨path, text, .file h hfile⟩
      | error e =>
        exact .inr ⟨_, fun limit env => ⟨perform_unreadable hfile limit env, .unreadable h hfile⟩⟩

theorem Answers.of_perform {limit : Nat} {env after : Environment} {line : String} {t : Transcript}
    (h : perform limit display files env (Command.parse line) = some (after, t))
    (hexit : Command.parse line ≠ .exit) : Answers display files env line after t := by
  rcases hasProgram_or_answers hexit with ⟨source, text, hprogram⟩ | ⟨_, hanswers⟩
  · rw [hprogram.perform_eq] at h
    obtain ⟨⟨e, _⟩, hrun, heq⟩ := Option.map_eq_some_iff.1 h
    cases heq
    exact .program hprogram hrun
  · obtain ⟨hperform, hanswer⟩ := hanswers limit env
    rw [hperform] at h
    cases h
    exact hanswer

theorem Answers.settles {env after : Environment} {line : String} {t : Transcript}
    (h : Answers display files env line after t) :
    Settles (fun limit => perform limit display files env (Command.parse line)) (after, t) := by
  cases h with
  | empty h | help h | clear h | nameless h =>
    rw [h]
    exact .of_eq fun _ => rfl
  | unreadable h hfile =>
    rw [h]
    exact .of_eq fun limit => perform_unreadable hfile limit env
  | @program source text k e _ h hrun =>
    refine ⟨k, fun limit hle => ?_⟩
    simp only [h.perform_eq, evaluateText_outlasts hle source text env _ hrun, Option.map_some]

theorem Answers.unique {env after after' : Environment} {line : String} {t t' : Transcript}
    (h : Answers display files env line after t) (h' : Answers display files env line after' t') :
    after = after' ∧ t = t' :=
  Prod.mk.inj (h.settles.unique h'.settles)

theorem Rounds.unique {env final final' : Environment} {lines : List String}
    {answers answers' : List Transcript} (h : Rounds display files env lines final answers)
    (h' : Rounds display files env lines final' answers') :
    final = final' ∧ answers = answers' := by
  induction h generalizing final' answers' with
  | done =>
    cases h'
    exact ⟨rfl, rfl⟩
  | line hanswer _ ih =>
    cases h' with
    | line hanswer' hrest' =>
      obtain ⟨rfl, rfl⟩ := hanswer.unique hanswer'
      obtain ⟨rfl, rfl⟩ := ih hrest'
      exact ⟨rfl, rfl⟩

theorem converse_of_exit {line : String} (h : Command.parse line = .exit) (limit : Nat)
    (lines : List (Option String)) (env : Environment) :
    converse limit display files (some line :: lines) env = some (env, record [] true) := by
  rw [converse, h]
  rfl

theorem converse_of_ne_exit {line : String} (h : Command.parse line ≠ .exit) (limit : Nat)
    (lines : List (Option String)) (env : Environment) :
    converse limit display files (some line :: lines) env =
      (perform limit display files env (Command.parse line)).bind fun (after, answer) =>
        (converse limit display files lines after).map fun (final, rest) =>
          (final, .print prompt ++ answer ++ rest) := by
  rw [converse]
  refine congrArg (Option.bind _) (funext fun (after, answer) => ?_)
  simp only [if_neg h]
  cases converse limit display files lines after <;> rfl

theorem rounds_of_converse {limit : Nat} {texts : List String} {env final : Environment}
    {t : Transcript}
    (h : converse limit display files (texts.map some) env = some (final, t)) :
    ∃ answers, Rounds display files env (texts.takeWhile (Command.parse · ≠ .exit)) final answers ∧
      t = record answers (texts.any (Command.parse · = .exit)) := by
  induction texts generalizing env t with
  | nil =>
    cases h
    exact ⟨[], .done, rfl⟩
  | cons line texts ih =>
    rw [List.map_cons] at h
    by_cases hexit : Command.parse line = .exit
    · rw [converse_of_exit hexit] at h
      cases h
      exact ⟨[], by simpa [hexit] using .done, by simp [hexit]⟩
    · rw [converse_of_ne_exit hexit] at h
      obtain ⟨⟨after, answer⟩, hanswer, h⟩ := Option.bind_eq_some_iff.1 h
      obtain ⟨⟨_, rest⟩, hrest, heq⟩ := Option.map_eq_some_iff.1 h
      cases heq
      obtain ⟨answers, hrounds, rfl⟩ := ih hrest
      refine ⟨answer :: answers, ?_, ?_⟩
      · rw [List.takeWhile_cons_of_pos (by simpa using hexit)]
        exact .line (.of_perform hanswer hexit) hrounds
      · simp [hexit, record_cons]

theorem settles_converse {texts : List String} {env final : Environment}
    {answers : List Transcript}
    (h : Rounds display files env (texts.takeWhile (Command.parse · ≠ .exit)) final answers) :
    Settles (fun limit => converse limit display files (texts.map some) env)
      (final, record answers (texts.any (Command.parse · = .exit))) := by
  induction texts generalizing env answers with
  | nil =>
    cases h
    exact .of_eq fun _ => rfl
  | cons line texts ih =>
    -- a line that asks for the end is not among the rounds, and hides all lines behind it
    by_cases hexit : Command.parse line = .exit
    · obtain ⟨rfl, rfl⟩ : env = final ∧ answers = [] := by
        simp [hexit] at h
        cases h
        exact ⟨rfl, rfl⟩
      simp only [List.any_cons, hexit, decide_true, Bool.true_or]
      exact .of_eq fun limit => converse_of_exit hexit limit _ env
    · rw [List.takeWhile_cons_of_pos (by simpa using hexit)] at h
      cases h with
      | line hanswer hrest =>
        obtain ⟨k, hk⟩ := hanswer.settles.and (ih hrest)
        refine ⟨k, fun limit hle => ?_⟩
        obtain ⟨hperform, hconverse⟩ := hk limit hle
        simp [converse_of_ne_exit hexit, hperform, hconverse, hexit, record_cons]

theorem Answers.environment_eq {env after : Environment} {line : String} {t : Transcript}
    (h : Answers display files env line after t)
    (hdefect : ∀ source text, HasProgram files line source text →
      (parseText source text).diagnostics ≠ []) : after = env := by
  cases h with
  | empty | help | clear | nameless | unreadable => rfl
  | program h hrun =>
    rw [evaluateText_of_defects (hdefect _ _ h)] at hrun
    cases hrun
    rfl

theorem converse_append_exit {line : String} (h : Command.parse line = .exit) (limit : Nat)
    (before more : List (Option String)) (env : Environment) :
    converse limit display files (before ++ some line :: more) env =
      converse limit display files (before ++ [some line]) env := by
  induction before generalizing env with
  | nil => exact (converse_of_exit h ..).trans (converse_of_exit h ..).symm
  | cons first before ih =>
    obtain _ | text := first
    · rfl
    · simp only [List.cons_append, converse, ih]

theorem start_eq (limit : Nat) (lines : List (Option String)) (env : Environment) :
    start limit display files lines env =
      (converse limit display files lines env).map fun (final, t) =>
        (final, .print banner ++ t) := by
  rw [start]
  cases converse limit display files lines env <;> rfl

theorem exists_start_iff {texts : List String} {env final : Environment} {t : Transcript} :
    (∃ limit, start limit display files (texts.map some) env = some (final, t)) ↔
      ∃ answers,
        Rounds display files env (texts.takeWhile (Command.parse · ≠ .exit)) final answers ∧
          t = .print banner ++ record answers (texts.any (Command.parse · = .exit)) := by
  constructor
  · rintro ⟨limit, h⟩
    rw [start_eq] at h
    obtain ⟨⟨_, rest⟩, hconverse, heq⟩ := Option.map_eq_some_iff.1 h
    cases heq
    obtain ⟨answers, hrounds, rfl⟩ := rounds_of_converse hconverse
    exact ⟨answers, hrounds, rfl⟩
  · rintro ⟨answers, hrounds, rfl⟩
    obtain ⟨limit, hlimit⟩ := settles_converse hrounds
    have hconverse : converse limit display files (texts.map some) env = _ :=
      hlimit limit (Nat.le_refl _)
    refine ⟨limit, ?_⟩
    rw [start_eq, hconverse, Option.map_some]

/-- Nothing keeps a line from being answered but a program that runs for ever. -/
theorem exists_answers_or_endless {line : String} (hexit : Command.parse line ≠ .exit)
    (env : Environment) :
    (∃ after t, Answers display files env line after t) ∨
      ∃ source text, HasProgram files line source text ∧
        ∀ limit, evaluateText limit source text env = none := by
  rcases hasProgram_or_answers hexit with ⟨source, text, hprogram⟩ | ⟨t, hanswers⟩
  · by_cases hends : ∃ limit r, evaluateText limit source text env = some r
    · obtain ⟨limit, ⟨e, after⟩, hrun⟩ := hends
      exact .inl ⟨after, _, .program hprogram hrun⟩
    · refine .inr ⟨source, text, hprogram, fun limit => ?_⟩
      exact Option.eq_none_iff_forall_ne_some.2 fun r hr => hends ⟨limit, r, hr⟩
  · exact .inl ⟨env, t, (hanswers 0 env).2⟩

theorem inputLines_append_lineFeed {input : String} {last : Char}
    (h : input.toList.getLast? = some last) (hlast : last ≠ '\n') :
    inputLines (input ++ "\n").toUTF8 = inputLines input.toUTF8 := by
  have hfeed : (input ++ "\n").toList = input.toList ++ ['\n'] := String.toList_append
  rw [inputLines_toUTF8, inputLines_toUTF8, hfeed, Text.lines_append_lineFeed h hlast]

/-- A session is a fold over its lines up to the first that asks for the end. Any other is answered,
unless its program runs for ever, and the next one is read. -/
theorem start_folds (display : DisplayOptions) (files : Files) (input : String)
    (env : Environment) :
    let texts := (Text.lines input.toList).map String.ofList
    (∀ final t,
      (∃ limit, start limit display files (inputLines input.toUTF8) env = some (final, t)) ↔
        ∃ answers,
          Rounds display files env (texts.takeWhile (Command.parse · ≠ .exit)) final answers ∧
            t = .print banner ++ record answers (texts.any (Command.parse · = .exit))) ∧
      (∀ line, Command.parse line ≠ .exit → ∀ env,
        (∃ after t, Answers display files env line after t) ∨
          ∃ source text, HasProgram files line source text ∧
            ∀ limit, evaluateText limit source text env = none) ∧
      (∀ line env after t, Answers display files env line after t →
        (∀ source text, HasProgram files line source text →
          (parseText source text).diagnostics ≠ []) → after = env) ∧
      (∀ line, Command.parse line = .exit → ∀ limit before more,
        start limit display files (before ++ some line :: more) env =
          start limit display files (before ++ [some line]) env) ∧
      (∀ last, input.toList.getLast? = some last → last ≠ '\n' →
        inputLines (input ++ "\n").toUTF8 = inputLines input.toUTF8) ∧
      ∀ line, Command.parse (line ++ "\n") = Command.parse line := by
  intro texts
  have hlines : inputLines input.toUTF8 = texts.map some := by
    rw [inputLines_toUTF8, List.map_map]
    rfl
  refine ⟨fun final t => ?_, fun line hexit env => exists_answers_or_endless hexit env,
    fun line env after t h => h.environment_eq, fun line hexit limit before more => ?_,
    fun last hlast hne => inputLines_append_lineFeed hlast hne, Command.parse_append_lineFeed⟩
  · rw [hlines]
    exact exists_start_iff
  · rw [start_eq, start_eq, converse_append_exit hexit]

end Repl
end Scriptlet
