import Scriptlet.CommandLine.Invoke
import Scriptlet.Proofs.Session.Fold

/-! A script that is run in front of a session. The session behind it goes on as one does that
loads the script first: with the variables that it leaves, and with the same answers. -/

namespace Scriptlet

/-- A name that is no switch where it is an argument, and that is found again at the end of a line
that it is typed on. -/
structure PlainName (file : String) : Prop where
  ne_empty : file ≠ ""
  no_dash : file.toList.head? ≠ some '-'
  no_lineFeed : '\n' ∉ file.toList
  head_visible : ∀ c ∈ file.toList.head?, Text.isWhitespace c = false
  last_visible : ∀ c ∈ file.toList.getLast?, Text.isWhitespace c = false

namespace PlainName
variable {file : String}

theorem toList_ne_nil (h : PlainName file) : file.toList ≠ [] := by
  simpa using h.ne_empty

theorem trim_eq (h : PlainName file) : Text.trim file.toList = file.toList :=
  Text.trim_eq_self h.head_visible h.last_visible

end PlainName

namespace Command

def loadLine (file : String) : String := "loadFile " ++ file

theorem toList_loadLine (file : String) :
    (loadLine file).toList = loadWord ++ ' ' :: file.toList := by
  rw [loadLine, String.toList_append]
  rfl

theorem lineFeed_not_mem_loadLine {file : String} (h : PlainName file) :
    '\n' ∉ (loadLine file).toList := by
  have hword : '\n' ∉ loadWord := by decide
  rw [toList_loadLine]
  simp [hword, h.no_lineFeed]

theorem loadPath?_loadLine {file : String} (h : PlainName file) :
    loadPath? (loadWord ++ ' ' :: file.toList) = some (some file) := by
  have hblank : Text.isWhitespace ' ' = true := by decide
  have htrim : Text.trim (' ' :: file.toList) = file.toList := by
    rw [Text.trim_cons_of_isWhitespace hblank, h.trim_eq]
  have hprefix : loadWord.isPrefixOf (loadWord ++ ' ' :: file.toList) = true :=
    List.isPrefixOf_iff_prefix.2 (List.prefix_append _ _)
  have hne : file.toList.isEmpty = false := by simpa using h.ne_empty
  simp [loadPath?, hprefix, htrim, hne, hblank]

theorem trim_loadLine {file : String} (h : PlainName file) :
    Text.trim (loadLine file).toList = loadWord ++ ' ' :: file.toList := by
  have hhead : ∀ c ∈ (loadWord ++ ' ' :: file.toList).head?, Text.isWhitespace c = false := by
    rintro _ ⟨⟩
    decide
  have hlast : ∀ c ∈ (loadWord ++ ' ' :: file.toList).getLast?, Text.isWhitespace c = false := by
    obtain ⟨d, ds, hds⟩ := List.exists_cons_of_ne_nil h.toList_ne_nil
    rw [List.append_cons, List.getLast?_append, hds, List.getLast?_cons, Option.some_or,
      ← List.getLast?_cons, ← hds]
    exact h.last_visible
  rw [toList_loadLine]
  exact Text.trim_eq_self hhead hlast

theorem parse_loadLine {file : String} (h : PlainName file) :
    parse (loadLine file) = .loadFile (some file) := by
  -- the other commands are shorter than the word that loads a file
  have hshort {word : String} (hword : word.toList.length ≤ 4) :
      String.ofList (loadWord ++ ' ' :: file.toList) ≠ word := by
    intro heq
    have hload : loadWord.length = 8 := rfl
    rw [← heq, String.toList_ofList, List.length_append] at hword
    omega
  rw [parse, trim_loadLine h]
  split
  · next heq => exact absurd heq (hshort (by decide))
  · next heq => exact absurd heq (hshort (by decide))
  · next heq => exact absurd heq (hshort (by decide))
  · next heq => exact absurd heq (hshort (by decide))
  · next heq => exact absurd heq (hshort (by decide))
  · rw [loadPath?_loadLine h]

end Command

namespace Repl
variable {display : DisplayOptions} {files : Files}

/-- Every program that the lines ask for ends, each with the variables that those before it left. -/
inductive Ends (files : Files) : Environment → List String → Prop
  | done {env} : Ends files env []
  | leave {env line lines} (h : Command.parse line = .exit) : Ends files env (line :: lines)
  | plain {env line lines} (hexit : Command.parse line ≠ .exit)
      (h : ∀ source text, ¬ HasProgram files line source text) (hrest : Ends files env lines) :
      Ends files env (line :: lines)
  | program {env line lines source text limit e after} (h : HasProgram files line source text)
      (hrun : evaluateText limit source text env = some (e, after))
      (hrest : Ends files after lines) : Ends files env (line :: lines)

theorem HasProgram.ne_exit {line source text : String} (h : HasProgram files line source text) :
    Command.parse line ≠ .exit := by
  cases h with
  | file h | typed h => simp [h]

theorem Ends.exists_rounds {env : Environment} {lines : List String} (h : Ends files env lines)
    (display : DisplayOptions) :
    ∃ final answers,
      Rounds display files env (lines.takeWhile (Command.parse · ≠ .exit)) final answers := by
  induction h with
  | done => exact ⟨_, _, .done⟩
  | leave h =>
    rw [List.takeWhile_cons_of_neg (by simp [h])]
    exact ⟨_, _, .done⟩
  | plain hexit h _ ih =>
    obtain ⟨final, answers, hrounds⟩ := ih
    rw [List.takeWhile_cons_of_pos (by simpa using hexit)]
    rcases hasProgram_or_answers hexit with ⟨source, text, hprogram⟩ | ⟨t, hanswers⟩
    · exact absurd hprogram (h source text)
    · exact ⟨final, _, .line (hanswers 0 _).2 hrounds⟩
  | program h hrun _ ih =>
    obtain ⟨final, answers, hrounds⟩ := ih
    rw [List.takeWhile_cons_of_pos (by simpa using h.ne_exit)]
    exact ⟨final, _, .line (.program h hrun) hrounds⟩

theorem inputLines_eq_map_some (input : String) :
    inputLines input.toUTF8 = ((Text.lines input.toList).map String.ofList).map some := by
  rw [inputLines_toUTF8, List.map_map]
  rfl

theorem inputLines_loadLine {file : String} (h : PlainName file) (input : String) :
    inputLines (Command.loadLine file ++ "\n" ++ input).toUTF8 =
      some (Command.loadLine file) :: inputLines input.toUTF8 := by
  have hline : (Command.loadLine file ++ "\n" ++ input).toList =
      (Command.loadLine file).toList ++ '\n' :: input.toList := by
    simp only [String.toList_append, List.append_assoc]
    rfl
  rw [inputLines_toUTF8, inputLines_toUTF8, hline,
    Text.lines_append_cons (Command.lineFeed_not_mem_loadLine h), List.map_cons,
    String.ofList_toList]

end Repl

theorem Files.holds_of_readText {files : Files} {path text : String}
    (h : files.readText path = .ok text) : files.holds path = true := by
  unfold readText at h
  unfold holds
  cases hread : files path with
  | ok bytes => rfl
  | error e =>
    rw [hread] at h
    cases h

theorem Files.readText_of_toUTF8 {files : Files} {path text : String}
    (h : files path = .ok text.toUTF8) : files.readText path = .ok text := by
  have hdecoded : String.fromUTF8? text.toUTF8 = some text := dif_pos text.isValidUTF8
  rw [readText, h]
  simp only [bind, Except.bind, hdecoded]

namespace CommandLine
open Repl (banner prompt record Rounds converse inputLines)

theorem Settings.turnOn_eq {s : Settings} {w : Switch} (hfile : s.file ≠ some "")
    (hw : w.isImmediate = false) (hnew : w ∉ s.switches) :
    s.turnOn w = .ok { s with switches := s.switches ++ [w] } := by
  have hcheck : s.checkFile = .ok () := if_neg hfile
  have hhas : s.has w = false := decide_eq_false hnew
  cases w with
  | help | version => cases hw
  | _ =>
    simp only [turnOn, hcheck, hhas]
    rfl

theorem Settings.readAll_long (s : Settings) (w : Switch) (rest : List String) :
    s.readAll (w.long :: rest) = (s.turnOn w).bind (·.readAll rest) := by
  cases w <;> rfl

theorem Settings.readAll_switches {s : Settings} {options : List Switch}
    (hfile : s.file ≠ some "") (hlater : ∀ w ∈ options, w.isImmediate = false)
    (hnodup : (s.switches ++ options).Nodup) :
    s.readAll (options.map Switch.long) = .ok { s with switches := s.switches ++ options } := by
  induction options generalizing s with
  | nil =>
    have hcheck : s.checkFile = .ok () := if_neg hfile
    rw [List.map_nil, readAll, hcheck, List.append_nil]
    rfl
  | cons w options ih =>
    obtain ⟨hw, hlater⟩ := List.forall_mem_cons.1 hlater
    have hnew : w ∉ s.switches := fun hmem =>
      (List.nodup_append.1 hnodup).2.2 w hmem w List.mem_cons_self rfl
    rw [List.append_cons] at hnodup
    have hrest := ih (s := { s with switches := s.switches ++ [w] }) hfile hlater hnodup
    rw [List.map_cons, readAll_long, turnOn_eq hfile hw hnew]
    exact hrest.trans (by simp)

theorem Settings.display_interactive (file : Option String) (options : List Switch) :
    display ⟨file, .interactive :: options⟩ = display ⟨.none, options⟩ := by
  simp [display, has]

theorem Settings.readAll_file {s : Settings} (hs : s.file = .none) {file : String}
    (hname : PlainName file) (rest : List String) :
    s.readAll (file :: rest) = { s with file := some file }.readAll rest := by
  obtain ⟨c, cs, hcs⟩ := List.exists_cons_of_ne_nil hname.toList_ne_nil
  have hc : c ≠ '-' := by
    rintro rfl
    exact hname.no_dash (by rw [hcs, List.head?_cons])
  have hfile : s.readFile file = .ok { s with file := some file } := by
    rw [readFile, hs]
  rw [readAll, hcs]
  split
  · next heq => exact absurd (List.cons.inj heq).1 hc
  · next heq => exact absurd (List.cons.inj heq).1 hc
  · next heq => exact absurd (List.cons.inj heq).1 hc
  · rw [hfile]
    rfl

structure DisplaySwitches (options : List Switch) : Prop where
  subset : options ⊆ [.tokens, .tree, .noColor]
  nodup : options.Nodup

namespace DisplaySwitches
variable {options : List Switch}

theorem isImmediate (h : DisplaySwitches options) {w : Switch} (hw : w ∈ options) :
    w.isImmediate = false := by
  have hmem := h.subset hw
  simp only [List.mem_cons, List.not_mem_nil, or_false] at hmem
  rcases hmem with rfl | rfl | rfl <;> rfl

theorem interactive_not_mem (h : DisplaySwitches options) : .interactive ∉ options := fun hmem =>
  absurd (h.subset hmem) (by decide)

theorem readAll_words (h : DisplaySwitches options) :
    Settings.none.readAll (options.map Switch.long) = .ok ⟨none, options⟩ :=
  Settings.readAll_switches (s := .none) nofun (fun _ => h.isImmediate) h.nodup

theorem readAll_file (h : DisplaySwitches options) {file : String} (hname : PlainName file) :
    Settings.none.readAll (file :: options.map Switch.long) = .ok ⟨some file, options⟩ := by
  rw [Settings.readAll_file rfl hname]
  exact Settings.readAll_switches (fun heq => hname.ne_empty (Option.some.inj heq))
    (fun _ => h.isImmediate) h.nodup

theorem readAll_interactive (h : DisplaySwitches options) {file : String}
    (hname : PlainName file) :
    Settings.none.readAll ("-i" :: file :: options.map Switch.long) =
      .ok ⟨some file, .interactive :: options⟩ := by
  have hinteractive (rest : List String) : Settings.none.readAll ("-i" :: rest) =
      Settings.readAll ⟨none, [.interactive]⟩ rest := rfl
  rw [hinteractive, Settings.readAll_file rfl hname]
  exact Settings.readAll_switches (fun heq => hname.ne_empty (Option.some.inj heq))
    (fun _ => h.isImmediate) (List.nodup_cons.2 ⟨h.interactive_not_mem, h.nodup⟩)

end DisplaySwitches

section
variable {files : Files} {file text : String} {options : List Switch} {limit : Nat}
  {e : Evaluation} {after : Environment}

theorem opening_of_run {s : Settings} (hs : s.file = some file)
    (hread : files.readText file = .ok text)
    (hrun : evaluateText limit file text .initial = some (e, after)) :
    opening limit s files = some
      (if s.has .interactive then .session after (Script.shown s.display file text e)
        else .done (if e.isOk then .success else .failure)
          (Script.shown s.display file text e)) := by
  have hran : Script.runFile limit s.display files file .initial =
      some (.ok ⟨e, after, Script.shown s.display file text e⟩) := by
    rw [Script.runFile, hread]
    simp only [Script.run_eq, hrun, Option.map_some]
  rw [opening, hs]
  simp only [openFile, if_pos (Files.holds_of_readText hread), hran, Option.map_some]

theorem invoke_of_session {arguments : List String} {s : Settings}
    (hs : Settings.none.readAll arguments = .ok s) {env : Environment} {t : Transcript}
    (hopen : opening limit s files = some (.session env t)) (lines : List (Option String)) :
    invoke limit arguments files lines =
      (converse limit s.display files lines env).map fun (_, rest) =>
        (.success, t ++ (.print banner ++ rest)) := by
  simp only [invoke, hs, hopen, Option.bind_eq_bind, Option.bind_some, Repl.start_eq]
  cases converse limit s.display files lines env <;> rfl

theorem invoke_of_done {arguments : List String} {s : Settings}
    (hs : Settings.none.readAll arguments = .ok s) {exit : Exit} {t : Transcript}
    (hopen : opening limit s files = some (.done exit t)) (lines : List (Option String)) :
    invoke limit arguments files lines = some (exit, t) := by
  simp only [invoke, hs, hopen]
  rfl

theorem invoke_interactive (hname : PlainName file) (hread : files.readText file = .ok text)
    (hoptions : DisplaySwitches options)
    (hrun : evaluateText limit file text .initial = some (e, after))
    (lines : List (Option String)) :
    let display := Settings.display ⟨none, options⟩
    let shown := Script.shown display file text e
    invoke limit ("-i" :: file :: options.map Switch.long) files lines =
      (converse limit display files lines after).map fun (_, rest) =>
        (.success, shown ++ (.print banner ++ rest)) := by
  have hopen := opening_of_run (s := ⟨some file, .interactive :: options⟩) rfl hread hrun
  have hhas : Settings.has ⟨some file, .interactive :: options⟩ .interactive = true := by
    simp [Settings.has]
  rw [if_pos hhas, Settings.display_interactive] at hopen
  rw [invoke_of_session (hoptions.readAll_interactive hname) hopen, Settings.display_interactive]

theorem invoke_loading (hname : PlainName file) (hread : files.readText file = .ok text)
    (hoptions : DisplaySwitches options)
    (hrun : evaluateText limit file text .initial = some (e, after))
    (lines : List (Option String)) :
    let display := Settings.display ⟨none, options⟩
    let shown := Script.shown display file text e
    invoke limit (options.map Switch.long) files (some (Command.loadLine file) :: lines) =
      (converse limit display files lines after).map fun (_, rest) =>
        (.success, .print banner ++ (.print prompt ++ shown ++ rest)) := by
  have hload := Command.parse_loadLine hname
  have hexit : Command.parse (Command.loadLine file) ≠ .exit := by simp [hload]
  have hprogram : Repl.HasProgram files (Command.loadLine file) file text := .file hload hread
  rw [invoke_of_session hoptions.readAll_words rfl, Repl.converse_of_ne_exit hexit,
    hprogram.perform_eq, hrun]
  simp only [Option.map_some, Option.bind_some, Option.map_map]
  rfl

theorem invoke_script (hname : PlainName file) (hread : files.readText file = .ok text)
    (hoptions : DisplaySwitches options)
    (hrun : evaluateText limit file text .initial = some (e, after))
    (lines : List (Option String)) :
    invoke limit (file :: options.map Switch.long) files lines =
      some (if e.isOk then .success else .failure,
        Script.shown (Settings.display ⟨none, options⟩) file text e) := by
  have hopen := opening_of_run (s := ⟨some file, options⟩) rfl hread hrun
  have hhas : Settings.has ⟨some file, options⟩ .interactive = false :=
    decide_eq_false hoptions.interactive_not_mem
  rw [hhas] at hopen
  exact invoke_of_done (hoptions.readAll_file hname) hopen lines

/-- Running a script in front of a session and loading it as the first line of one come to the
same. Either way the session answers the lines behind it one by one with the variables that the
script leaves and those before have left; what is shown differs in where the banner stands, and in
the prompt in front of the line that loads the script. Alone, the script succeeds if nothing is
wrong with it. -/
theorem opening_agrees_with_loading {input : String} (hname : PlainName file)
    (hread : files.readText file = .ok text) (hoptions : DisplaySwitches options)
    (hrun : evaluateText limit file text .initial = some (e, after))
    (hends : Repl.Ends files after ((Text.lines input.toList).map String.ofList)) :
    let words := options.map Switch.long
    let display := Settings.display ⟨none, options⟩
    let shown := Script.shown display file text e
    let lines := (Text.lines input.toList).map String.ofList
    let rounds := lines.takeWhile (Command.parse · ≠ .exit)
    let left := lines.any (Command.parse · = .exit)
    ∃ final answers,
      let inFront : Transcript := shown ++ (.print banner ++ record answers left)
      let loaded : Transcript := .print banner ++ (.print prompt ++ shown ++ record answers left)
      Rounds display files after rounds final answers ∧
      Rounds display files .initial (Command.loadLine file :: rounds) final (shown :: answers) ∧
      Settles (fun l => invoke l ("-i" :: file :: words) files (inputLines input.toUTF8))
        (.success, inFront) ∧
      Settles (fun l => invoke l words files
          (inputLines (Command.loadLine file ++ "\n" ++ input).toUTF8)) (.success, loaded) ∧
      inFront.stderr = loaded.stderr ∧
      ∀ bytes, Settles (fun l => invoke l (file :: words) files (inputLines bytes))
        (if e.diagnostics = [] then .success else .failure, shown) := by
  intro words display shown lines rounds left
  have hload := Command.parse_loadLine hname
  have hlines : inputLines input.toUTF8 = lines.map some := Repl.inputLines_eq_map_some input
  obtain ⟨final, answers, hrounds⟩ := hends.exists_rounds display
  obtain ⟨k, hk⟩ := Repl.settles_converse hrounds
  -- one bound for the script and for all lines behind it
  have hrun {l : Nat} (hl : max limit k ≤ l) :
      evaluateText l file text .initial = some (e, after) :=
    evaluateText_outlasts (Nat.le_trans (Nat.le_max_left ..) hl) _ _ _ _ hrun
  have hconverse {l : Nat} (hl : max limit k ≤ l) :
      converse l display files (lines.map some) after = some (final, record answers left) :=
    hk l (Nat.le_trans (Nat.le_max_right ..) hl)
  have hfirst : Repl.Answers display files .initial (Command.loadLine file) after shown :=
    .program (.file hload hread) (hrun (Nat.le_refl _))
  refine ⟨final, answers, hrounds, .line hfirst hrounds, ⟨max limit k, fun l hl => ?_⟩,
    ⟨max limit k, fun l hl => ?_⟩, ?_, fun bytes => ⟨max limit k, fun l hl => ?_⟩⟩
  · rw [hlines]
    exact (invoke_interactive hname hread hoptions (hrun hl) _).trans
      (congrArg (Option.map _) (hconverse hl))
  · rw [Repl.inputLines_loadLine hname, hlines]
    exact (invoke_loading hname hread hoptions (hrun hl) _).trans
      (congrArg (Option.map _) (hconverse hl))
  · -- the banner and the prompt are not among the complaints
    change shown.stderr ++ ("" ++ (record answers left).stderr) =
      "" ++ ("" ++ shown.stderr ++ (record answers left).stderr)
    simp only [String.empty_append]
  · refine (invoke_script hname hread hoptions (hrun hl) _).trans ?_
    simp only [Evaluation.isOk, List.isEmpty_iff]
    rfl

end

/-- A file that declares the name `x`, with the tree shown, in front of a line that reads it. -/
theorem opening_and_loading_of_declare :
    let files : Files := fun _ => .ok "declare x = true;".toUTF8
    let shown : Transcript := .print "VarDeclare x\n  VarAccess true\n"
    let answer : Transcript := .print "VarAccess x\ntrue\n"
    Settles (fun l => invoke l ["-i", "t", "--tree"] files (inputLines "x;\nquit".toUTF8))
      (.success, shown ++ (.print banner ++ record [answer] true)) ∧
    Settles (fun l => invoke l ["--tree"] files (inputLines "loadFile t\nx;\nquit".toUTF8))
      (.success, .print banner ++ (.print prompt ++ shown ++ record [answer] true)) ∧
    Settles (fun l => invoke l ["t", "--tree"] files (inputLines .empty)) (.success, shown) := by
  intro files shown answer
  let after := Environment.initial.bind "x" (.boolean true) false
  let display := Settings.display ⟨none, [.tree]⟩
  have hname : PlainName "t" := by
    refine ⟨by decide, by decide, by decide, ?_, ?_⟩ <;> rintro _ ⟨⟩ <;> decide
  have hread : files.readText "t" = .ok "declare x = true;" := Files.readText_of_toUTF8 rfl
  have hoptions : DisplaySwitches [.tree] := by
    constructor <;> decide
  have hrun : evaluateText 0 "t" "declare x = true;" .initial = some (⟨[], []⟩, after) := by
    rw [evaluateText_eq (parseText_declare_true "t")]
    rfl
  have hshown : Script.shown display "t" "declare x = true;" ⟨[], []⟩ = shown := by
    rw [Script.shown, parseText_declare_true]
    rfl
  have hvalue : evaluateText 0 "<stdin>" "x;" after = some (⟨[.boolean true], []⟩, after) := by
    rw [evaluateText_eq (parseText_name "<stdin>")]
    rfl
  have hanswer : Script.shown display "<stdin>" "x;" ⟨[.boolean true], []⟩ = answer := by
    rw [Script.shown, parseText_name]
    rfl
  have hline : Repl.HasProgram files "x;" "<stdin>" "x;" := .typed rfl
  have hends : Repl.Ends files after ((Text.lines "x;\nquit".toList).map String.ofList) :=
    .program hline hvalue (.leave (by decide))
  have hround : Rounds display files after ["x;"] after [answer] :=
    .line (hanswer ▸ .program hline hvalue) .done
  obtain ⟨final, answers, hrounds, -, hinteractive, hloading, -, hscript⟩ :=
    opening_agrees_with_loading hname hread hoptions hrun hends
  obtain ⟨-, rfl⟩ := hround.unique hrounds
  rw [hshown] at hinteractive hloading hscript
  exact ⟨hinteractive, hloading, hscript .empty⟩

end CommandLine
end Scriptlet
