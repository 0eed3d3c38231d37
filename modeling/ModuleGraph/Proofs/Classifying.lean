import ModuleGraph.FileTree
import ModuleGraph.Proofs.FileLines
import ModuleGraph.Proofs.Listing

/-!
# Classified files

A report on files told apart can be read back: its lines carry the marks, no file holds a line end,
and the mark and the blank behind it are all that a line adds. What is read back is the list of files
that was given, each file on the side where it belongs. It makes no difference whether the files are
given one by one or as a list.
-/

namespace ModuleGraph

/-! ### Files -/

namespace Path

/-- A file is one of the paths or lies below one of them. -/
def LiesWithin (paths : List String) (file : String) : Prop :=
  ∃ p ∈ paths, file = p ∨ ∃ rest, file.toList = p.toList ++ separator :: rest

theorem belongsTo_iff {file : String} {paths : List String} :
    belongsTo file paths = true ↔ LiesWithin paths file := by
  simp only [belongsTo, List.any_eq_true, isWithin, Bool.or_eq_true, beq_iff_eq, isAncestor_iff,
    LiesWithin]

instance (paths : List String) : DecidablePred (LiesWithin paths) :=
  fun _ => decidable_of_iff _ belongsTo_iff

theorem partition_eq (files paths : List String) :
    partition files paths =
      ⟨files.filter (LiesWithin paths ·), files.filter (¬LiesWithin paths ·)⟩ := by
  have hside : ∀ file, belongsTo file paths = decide (LiesWithin paths file) := by
    intro file
    rw [Bool.eq_iff_iff, belongsTo_iff, decide_eq_true_iff]
  simp only [partition, hside, decide_not]

end Path

namespace FileList

/-- What a line of a report can show. -/
def IsEntry (file : String) : Prop := file ≠ "" ∧ '\n' ∉ file.toList

theorem isEntry_of_mem_ofChars {s : List Char} {file : String} (h : file ∈ ofChars s) :
    IsEntry file := by
  obtain ⟨line, hline, hfile⟩ := List.mem_filterMap.1 h
  obtain ⟨p, hp, rfl⟩ := Option.map_eq_some_iff.1 hfile
  constructor
  · intro hempty
    exact (Path.normalizeChars_eq_some hp).2.1 (String.ofList_eq_empty_iff.1 hempty)
  · rw [String.toList_ofList]
    intro hmem
    exact Text.newline_notMem_of_mem_lines hline ((Path.normalizeChars_infix hp).subset hmem)

end FileList

/-! ### Reports -/

namespace Report

/-- The lines of a report; the empty report has none. -/
def linesOf (report : String) : List String :=
  if report = "" then [] else (Text.splitAt '\n' report.toList).map String.ofList

/-- What a line shows behind a mark and a blank. -/
def shown? (mark : Char) (line : String) : Option String :=
  match line.toList with
  | c :: ' ' :: entry => if c = mark then some (String.ofList entry) else none
  | _ => none

/-- What lines show behind a mark, line by line. -/
def marked (mark : Char) (lines : List String) : List String := lines.filterMap (shown? mark)

theorem linesOf_joinLines {lines : List String} (h : ∀ l ∈ lines, FileList.IsEntry l) :
    linesOf (joinLines lines) = lines := by
  cases lines with
  | nil => rfl
  | cons l ls =>
    have hsplit : Text.splitAt '\n' (joinLines (l :: ls)).toList = (l :: ls).map String.toList := by
      have hfeed : "\n".toList = ['\n'] := rfl
      rw [joinLines, String.toList_intercalate, hfeed, Text.splitAt_eq_splitOn]
      refine List.splitOn_intercalate '\n' ?_ (by simp)
      intro line hline
      obtain ⟨s, hs, rfl⟩ := List.mem_map.1 hline
      exact (h s hs).2
    have hne : joinLines (l :: ls) ≠ "" := by
      intro hempty
      rw [hempty] at hsplit
      have hl : [] = l.toList := (List.cons.inj hsplit).1
      exact (h l List.mem_cons_self).1 (String.toList_eq_nil_iff.1 hl.symm)
    rw [linesOf, if_neg hne, hsplit, List.map_map]
    simp [Function.comp_def]

theorem marked_append (mark : Char) (xs ys : List String) :
    marked mark (xs ++ ys) = marked mark xs ++ marked mark ys := List.filterMap_append

/-- A line with a mark and a blank in front. -/
def markedLine (mark : Char) (entry : String) : String :=
  String.ofList (mark :: ' ' :: entry.toList)

theorem partitionLines_eq (p : Path.Partition) :
    partitionLines p = p.inside.map (markedLine '+') ++ p.outside.map (markedLine '-') := by
  have hplus : ∀ f, "+ " ++ f = markedLine '+' f := by simp [markedLine, ← String.toList_inj]
  have hminus : ∀ f, "- " ++ f = markedLine '-' f := by simp [markedLine, ← String.toList_inj]
  simp only [partitionLines, hplus, hminus]

theorem shown?_markedLine (mark c : Char) (entry : String) :
    shown? mark (markedLine c entry) = if c = mark then some entry else none := by
  simp [shown?, markedLine]

theorem marked_markedLines (mark : Char) (entries : List String) :
    marked mark (entries.map (markedLine mark)) = entries := by
  simp [marked, List.filterMap_map, shown?_markedLine]

theorem marked_markedLines_of_ne {mark c : Char} (h : c ≠ mark) (entries : List String) :
    marked mark (entries.map (markedLine c)) = [] := by
  simp [marked, List.filterMap_map, shown?_markedLine, h]

theorem marked_partitionLines (p : Path.Partition) :
    marked '+' (partitionLines p) = p.inside ∧ marked '-' (partitionLines p) = p.outside := by
  rw [partitionLines_eq, marked_append, marked_append, marked_markedLines, marked_markedLines,
    marked_markedLines_of_ne (by decide), marked_markedLines_of_ne (by decide), List.append_nil,
    List.nil_append]
  exact ⟨rfl, rfl⟩

theorem isEntry_markedLine {mark : Char} {entry : String} (hm : mark ≠ '\n')
    (h : FileList.IsEntry entry) : FileList.IsEntry (markedLine mark entry) := by
  constructor
  · simp [markedLine]
  · simp [markedLine, hm.symm, h.2]

theorem linesOf_partition {p : Path.Partition} (hin : ∀ f ∈ p.inside, FileList.IsEntry f)
    (hout : ∀ f ∈ p.outside, FileList.IsEntry f) :
    linesOf (partition p false .text) = partitionLines p ∧
      linesOf (partition p true .text) = p.outside := by
  refine ⟨linesOf_joinLines ?_, linesOf_joinLines hout⟩
  intro line hline
  rw [partitionLines_eq] at hline
  rcases List.mem_append.1 hline with hline | hline
  · obtain ⟨f, hf, rfl⟩ := List.mem_map.1 hline
    exact isEntry_markedLine (by decide) (hin f hf)
  · obtain ⟨f, hf, rfl⟩ := List.mem_map.1 hline
    exact isEntry_markedLine (by decide) (hout f hf)

/-- What two reports on files say when they are read line by line: one with marks, and one on the
files outside alone. -/
structure ReadsBack (files paths : List String) (report outsideReport : String) : Prop where
  inside : marked '+' (linesOf report) = files.filter (Path.LiesWithin paths ·)
  outside : marked '-' (linesOf report) = files.filter (¬Path.LiesWithin paths ·)
  /-- There are no lines besides, and those of the files inside come first. -/
  whole : linesOf report = (marked '+' (linesOf report)).map ("+ " ++ ·) ++
    (marked '-' (linesOf report)).map ("- " ++ ·)
  unmarked : outsideReport = joinLines (marked '-' (linesOf report))
  unmarkedLines : linesOf outsideReport = marked '-' (linesOf report)
  kept : (marked '+' (linesOf report) ++ marked '-' (linesOf report)).Perm files
  apart : ∀ f ∈ marked '+' (linesOf report), f ∉ marked '-' (linesOf report)

theorem partition_readsBack {files : List String} (h : ∀ f ∈ files, FileList.IsEntry f)
    (paths : List String) :
    ReadsBack files paths (partition (Path.partition files paths) false .text)
      (partition (Path.partition files paths) true .text) := by
  have hin : ∀ f ∈ (Path.partition files paths).inside, FileList.IsEntry f :=
    fun f hf => h f (List.mem_of_mem_filter hf)
  have hout : ∀ f ∈ (Path.partition files paths).outside, FileList.IsEntry f :=
    fun f hf => h f (List.mem_of_mem_filter hf)
  obtain ⟨hlines, hunmarked⟩ := linesOf_partition hin hout
  obtain ⟨hplus, hminus⟩ := marked_partitionLines (Path.partition files paths)
  rw [← hlines] at hplus hminus
  refine ⟨?inside, ?outside, ?whole, ?unmarked, ?unmarkedLines, ?kept, ?apart⟩
  case inside => rw [hplus, Path.partition_eq]
  case outside => rw [hminus, Path.partition_eq]
  case whole => rw [hplus, hminus, hlines, partitionLines]
  case unmarked => rw [hminus]; rfl
  case unmarkedLines => rw [hminus, hunmarked]
  case kept =>
    rw [hplus, hminus]
    exact List.filter_append_perm (Path.belongsTo · paths) files
  case apart =>
    rw [hplus, hminus]
    intro f hf hf'
    have hbelongs : Path.belongsTo f paths = true := (List.mem_filter.1 hf).2
    have hnot : (!Path.belongsTo f paths) = true := (List.mem_filter.1 hf').2
    rw [hbelongs] at hnot
    cases hnot

/-- A list of files is refused exactly if it is no text, and it makes no difference whether it is
decoded at once or line by line. Otherwise its files are the normal forms of its lines, in order and
as often as they stand there; only a line that names nothing has none. The report on them, read
back, is these files, those within the paths first, each on one side. -/
theorem classified_list_reads_back (bytes : ByteArray) (r : Resolution) :
    (FileList.read? bytes = none ↔ ¬bytes.IsValidUTF8) ∧
    FileList.read? bytes = FileList.readEach? bytes ∧
    ∀ files, FileList.read? bytes = some files →
      ∃ text : String, text.toUTF8 = bytes ∧
        files = (Text.lines text.toList).filterMap (fun l => Path.normalize (String.ofList l)) ∧
        (∀ l ∈ Text.lines text.toList,
          Path.normalize (String.ofList l) = none ↔ Path.NamesNothing (Text.trimChars l)) ∧
        ReadsBack files r.paths (partition (Path.partition files r.paths) false .text)
          (partition (Path.partition files r.paths) true .text) := by
  refine ⟨?_, FileList.read?_eq_readEach? bytes, ?_⟩
  · rw [FileList.read?, Option.map_eq_none_iff, Text.decode?_eq_none_iff]
  · intro files hfiles
    obtain ⟨text, htext, rfl⟩ := Option.map_eq_some_iff.1 hfiles
    refine ⟨text, Text.toUTF8_of_decode? htext, ?_, ?_, ?_⟩
    · simp only [FileList.ofChars, Path.normalize, String.toList_ofList]
    · intro l _
      rw [Path.normalize, String.toList_ofList, Option.map_eq_none_iff,
        Path.normalizeChars_eq_none_iff]
    · exact partition_readsBack (fun f hf => FileList.isEntry_of_mem_ofChars hf) r.paths

/-- Line ends of both kinds, an empty line, the root, a file named twice, and no end behind it. -/
def mixedList : String := "src/app/a\r\n\n./docs//\n/\n src/ü \nsrc/app/a"

theorem mixed_list_reads_back :
    ∃ files, FileList.read? mixedList.toUTF8 = some files ∧
      files = ["src/app/a", "docs", "src/ü", "src/app/a"] ∧
      linesOf (partition (Path.partition files (resolve monorepo app).paths) false .text) =
        ["+ src/app/a", "+ src/app/a", "- docs", "- src/ü"] ∧
      ReadsBack files (resolve monorepo app).paths
        (partition (Path.partition files (resolve monorepo app).paths) false .text)
        (partition (Path.partition files (resolve monorepo app).paths) true .text) := by
  obtain ⟨-, -, hback⟩ := classified_list_reads_back mixedList.toUTF8 (resolve monorepo app)
  have hfiles : FileList.read? mixedList.toUTF8 =
      some ["src/app/a", "docs", "src/ü", "src/app/a"] := by
    rw [FileList.read?, Text.decode?_toUTF8]
    decide +kernel
  obtain ⟨_, -, -, -, hreads⟩ := hback _ hfiles
  refine ⟨_, hfiles, rfl, ?_, hreads⟩
  rw [paths_monorepo_app]
  decide +kernel

end Report

/-! ### Files as arguments -/

namespace Program

open CommandLine (Command)

variable {d : Definitions} {name : String} {args : List String} {outside : Bool}
  {format : Report.Format}

theorem ask_classify_listed (hne : args ≠ []) (listed : Option (List String)) :
    ask d (some (FileList.ofArguments args)) (.classify name [] outside format) =
      ask d listed (.classify name args outside format) := by
  simp only [ask, hne, if_true, if_false]

theorem ask_classify_of_load {mod : Module} (hne : args ≠ []) (hload : d.load name = some mod)
    (listed : Option (List String)) :
    (ask d listed (.classify name args outside format)).result =
      .ok (emitted (Report.partition
        (Path.partition (FileList.ofArguments args) (resolve d mod).paths) outside format)) := by
  simp only [ask, about, Definitions.require_eq_ok_iff.2 hload, hne, if_false, classifyAnswer]

theorem ask_classify_of_not_load (hload : d.load name = none) (files files' : List String)
    (listed listed' : Option (List String)) :
    ask d listed (.classify name files outside format) =
      ask d listed' (.classify name files' outside format) := by
  simp only [ask, about, Definitions.require, hload]

variable {m : Type → Type} [Monad m] [LawfulMonad m] {bytes : ByteArray}

theorem askText_classify (s : Surroundings m) (hne : args ≠ [])
    (hread : FileList.read? bytes = some (FileList.ofArguments args)) (path : String)
    (text : Option String) :
    askText { s with input := pure bytes } path (.classify name [] outside format) text =
      askText s path (.classify name args outside format) text := by
  unfold askText
  simp only
  split
  · rfl
  · rename_i d _
    have hargs : asksInput d (.classify name args outside format) = false := by
      simp [asksInput, hne]
    have hinput : asksInput d (.classify name [] outside format) = (d.load name).isSome := by
      simp [asksInput]
    rw [hargs, hinput]
    cases hload : d.load name with
    | none =>
      -- no list is asked for, and none is missed
      simp only [Option.isSome_none, Bool.false_eq_true, if_false, pure_bind,
        ask_classify_of_not_load hload [] args none none]
    | some mod =>
      simp only [Option.isSome_some, Bool.false_eq_true, if_true, if_false, map_pure, pure_bind,
        hread, ask_classify_listed hne none]

variable [Files m]

theorem runCommand_classify (s : Surroundings m) (hne : args ≠ [])
    (hread : FileList.read? bytes = some (FileList.ofArguments args)) (setup : Log.Setup)
    (settings : Settings) (files : List String) :
    runCommand { s with input := pure bytes } setup settings files
        (some (.classify name [] outside format)) =
      runCommand s setup settings files (some (.classify name args outside format)) := by
  simp only [runCommand, answer, askText_classify s hne hread]
  rfl

theorem run_classify (s : Surroundings m) (hne : args ≠ [])
    (hread : FileList.read? bytes = some (FileList.ofArguments args)) {o : CommandLine.Options}
    {argv argv' : List String}
    (h : CommandLine.read argv = .ok ⟨o, some (.classify name [] outside format)⟩)
    (h' : CommandLine.read argv' = .ok ⟨o, some (.classify name args outside format)⟩) :
    run { s with input := pure bytes } argv = run s argv' := by
  unfold run
  simp only [h, h', runCommand_classify s hne hread]

/-- Files written one a line on standard input are classified as if they had been arguments: they are
the same files, the answer about a module is the same, and so is the whole run. -/
theorem listed_files_classified_as_arguments (s : Surroundings m) (hne : args ≠ [])
    (hline : ∀ a ∈ args, '\n' ∉ a.toList) (e : FileList.LineEnd) (closed : Bool) :
    FileList.read? (FileList.encoded e closed args) = some (FileList.ofArguments args) ∧
    (∀ d name mod outside format listed, d.load name = some mod →
      ask d (FileList.read? (FileList.encoded e closed args)) (.classify name [] outside format) =
        ask d listed (.classify name args outside format) ∧
      (ask d listed (.classify name args outside format)).result =
        .ok (emitted (Report.partition
          (Path.partition (FileList.ofArguments args) (resolve d mod).paths) outside format))) ∧
    ∀ o name outside format argv argv',
      CommandLine.read argv = .ok ⟨o, some (.classify name [] outside format)⟩ →
      CommandLine.read argv' = .ok ⟨o, some (.classify name args outside format)⟩ →
      run { s with input := pure (FileList.encoded e closed args) } argv = run s argv' := by
  have hread := FileList.read?_encoded hline e closed
  refine ⟨hread, ?_, ?_⟩
  · intro d name mod outside format listed hload
    rw [hread]
    exact ⟨ask_classify_listed hne listed, ask_classify_of_load hne hload listed⟩
  · intro o name outside format argv argv' h h'
    exact run_classify s hne hread h h'

/-- Blanks around a name, `./`, separators at the end, a return at the end, and no name at all. -/
def oddFiles : List String := [" src/app/a ", "./docs//", "lib/ü\r", " \t", "src/app/a"]

def bareSurroundings : Surroundings (StateM FileTree) where
  directory := "/"
  environment := []
  input := pure .empty
  time := pure "2024-01-01T00:00:00Z"

theorem odd_files_classified_as_arguments :
    oddFiles ≠ [] ∧ (∀ a ∈ oddFiles, '\n' ∉ a.toList) ∧
    FileList.read? (FileList.encoded .returnFeed false oddFiles) =
      some ["src/app/a", "docs", "lib/ü", "src/app/a"] ∧
    (ask monorepo (FileList.read? (FileList.encoded .returnFeed false oddFiles))
      (.classify "app" [] true .text)).result = .ok "docs\n" ∧
    run { bareSurroundings with input := pure (FileList.encoded .returnFeed false oddFiles) }
        ["classify", "app"] =
      run bareSurroundings (["classify", "app", "--"] ++ oddFiles) := by
  have hne : oddFiles ≠ [] := List.cons_ne_nil _ _
  have hline : ∀ a ∈ oddFiles, '\n' ∉ a.toList := by decide
  obtain ⟨hread, hask, hrun⟩ :=
    listed_files_classified_as_arguments bareSurroundings hne hline .returnFeed false
  obtain ⟨hasked, hresult⟩ := hask monorepo "app" app true .text none load_monorepo_app
  have hfiles : FileList.ofArguments oddFiles = ["src/app/a", "docs", "lib/ü", "src/app/a"] := by
    decide +kernel
  refine ⟨hne, hline, hfiles ▸ hread, ?_, ?_⟩
  · rw [hasked, hresult, hfiles, paths_monorepo_app]
    decide +kernel
  · exact hrun {} "app" false .text _ _ (by decide +kernel) (by decide +kernel)

end Program

end ModuleGraph
